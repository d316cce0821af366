import LinkArchive.Json.Scalar
import LinkArchive.Proofs.Json.Document
import LinkArchive.Proofs.Text.Utf8

/-!
# Texts in JSON documents

A text is read as the characters that were spelled, whichever way each of them was:
`Json.string_of_spelled`.
-/

namespace LinkArchive.Json

variable {cut : Bool}

/-! ### Escapes -/

theorem hexValue?_of_hexDigit {value : Nat} {byte : UInt8} (digit : HexDigit value byte) :
    hexValue? byte = some value := by
  have decimal : ∀ value < 10, hexValue? (UInt8.ofNat (48 + value)) = some value := by decide
  have lower : ∀ value < 16, 10 ≤ value → hexValue? (UInt8.ofNat (87 + value)) = some value := by
    decide
  have upper : ∀ value < 16, 10 ≤ value → hexValue? (UInt8.ofNat (55 + value)) = some value := by
    decide
  cases digit with
  | decimal small => exact decimal value small
  | lower large bound => exact lower value bound large
  | upper large bound => exact upper value bound large

theorem hex4_of_unit16 {code : Nat} {digits : Bytes} (written : Unit16 code digits) (rest : Bytes) :
    hex4 cut (digits ++ rest) = .ok (code, rest) := by
  cases written with
  | digits first second third fourth =>
    simp only [List.cons_append, List.nil_append, hex4, hexValue?_of_hexDigit first,
      hexValue?_of_hexDigit second, hexValue?_of_hexDigit third, hexValue?_of_hexDigit fourth]

theorem encodeChar_eq (code : Nat) :
    encodeChar code = String.utf8EncodeChar (Char.ofNat code) := by
  simp [encodeChar, Bytes.ofText_eq_flatMap]

theorem unescape_of_short {c : Char} {byte : UInt8} (listed : (c, byte) ∈ shortEscapes)
    (rest : Bytes) : unescape cut (byte :: rest) = .ok (String.utf8EncodeChar c, rest) := by
  simp only [shortEscapes, List.mem_cons, Prod.mk.injEq, List.not_mem_nil, or_false] at listed
  rcases listed with ⟨rfl, rfl⟩ | ⟨rfl, rfl⟩ | ⟨rfl, rfl⟩ | ⟨rfl, rfl⟩ | ⟨rfl, rfl⟩ | ⟨rfl, rfl⟩ |
    ⟨rfl, rfl⟩ | ⟨rfl, rfl⟩ <;> rfl

theorem unescape_of_unit {code : Nat} {digits : Bytes} (written : Unit16 code digits)
    (whole : code < 0xd800 ∨ 0xdfff < code) (rest : Bytes) :
    unescape cut (117 :: (digits ++ rest)) =
      .ok (String.utf8EncodeChar (Char.ofNat code), rest) := by
  have high : ¬(0xd800 ≤ code ∧ code ≤ 0xdbff) := by omega
  have low : ¬(0xdc00 ≤ code ∧ code ≤ 0xdfff) := by omega
  rw [unescape, hex4_of_unit16 written]
  show (if _ then _ else _) = _
  simp only [Bool.and_eq_true, decide_eq_true_eq, low, high, if_false, encodeChar_eq]

theorem unescape_of_pair {high low : Nat} {first second : Bytes}
    (written : Unit16 (0xd800 + high) first) (more : Unit16 (0xdc00 + low) second)
    (high_small : high < 0x400) (low_small : low < 0x400) (rest : Bytes) :
    unescape cut (117 :: (first ++ 92 :: 117 :: (second ++ rest))) =
      .ok (String.utf8EncodeChar (Char.ofNat (0x10000 + 0x400 * high + low)), rest) := by
  have code : (0xd800 + high - 0xd800) * 1024 + (0xdc00 + low - 0xdc00) + 0x10000 =
      0x10000 + 0x400 * high + low := by omega
  have isHigh : 0xd800 ≤ 0xd800 + high ∧ 0xd800 + high ≤ 0xdbff := by omega
  have noLow : ¬(0xdc00 ≤ 0xd800 + high ∧ 0xd800 + high ≤ 0xdfff) := by omega
  have isLow : ¬(0xdc00 + low < 0xdc00 ∨ 0xdfff < 0xdc00 + low) := by omega
  have second_half : lowSurrogate cut (0xd800 + high) (92 :: 117 :: (second ++ rest)) =
      .ok (String.utf8EncodeChar (Char.ofNat (0x10000 + 0x400 * high + low)), rest) := by
    rw [lowSurrogate, hex4_of_unit16 more]
    show (if _ then _ else _) = _
    simp only [Bool.or_eq_true, decide_eq_true_eq, isLow, if_false, encodeChar_eq, code]
  rw [unescape, hex4_of_unit16 written]
  show (if _ then _ else if _ then _ else _) = _
  simp only [Bool.and_eq_true, decide_eq_true_eq, noLow, isHigh, and_self, if_false, if_true]
  exact second_half

/-! ### Texts -/

/-- What is read of the rest of a text, behind some bytes of it. -/
def behind (bytes : Bytes) (read : Except JsonError (Bytes × Bytes)) :
    Except JsonError (Bytes × Bytes) :=
  read.map fun more => (bytes ++ more.1, more.2)

theorem behind_behind (first second : Bytes) (read : Except JsonError (Bytes × Bytes)) :
    behind first (behind second read) = behind (first ++ second) read := by
  cases read <;> simp [behind, Except.map]

theorem stringBytes_quote (fuel : Nat) (rest : Bytes) :
    stringBytes cut (fuel + 1) (34 :: rest) = .ok ([], rest) := rfl

theorem stringBytes_plain {byte : UInt8} (printing : 32 ≤ byte) (unquoted : byte ≠ 34)
    (unescaped : byte ≠ 92) (fuel : Nat) (rest : Bytes) :
    stringBytes cut (fuel + 1) (byte :: rest) = behind [byte] (stringBytes cut fuel rest) := by
  have shown : ¬byte < 32 := UInt8.not_lt.mpr printing
  rw [stringBytes, if_neg shown]
  · show (stringBytes cut fuel rest).bind _ = _
    cases stringBytes cut fuel rest <;> rfl
  · exact unquoted
  · exact unescaped

theorem stringBytes_escape {bytes rest left : Bytes} (read : unescape cut rest = .ok (bytes, left))
    (fuel : Nat) :
    stringBytes cut (fuel + 1) (92 :: rest) = behind bytes (stringBytes cut fuel left) := by
  rw [stringBytes, read]
  show (stringBytes cut fuel left).bind _ = _
  cases stringBytes cut fuel left <;> rfl

theorem stringBytes_of_plain {piece : Bytes}
    (plain : ∀ byte ∈ piece, 32 ≤ byte ∧ byte ≠ 34 ∧ byte ≠ 92) (fuel : Nat) (rest : Bytes) :
    stringBytes cut (fuel + piece.length) (piece ++ rest) =
      behind piece (stringBytes cut fuel rest) := by
  induction piece with
  | nil => cases found : stringBytes cut fuel rest <;> simp [behind, Except.map, found]
  | cons byte piece ih =>
    obtain ⟨⟨printing, unquoted, unescaped⟩, others⟩ := List.forall_mem_cons.mp plain
    rw [List.length_cons, ← Nat.add_assoc, List.cons_append,
      stringBytes_plain printing unquoted unescaped, ih others, behind_behind]
    rfl

theorem plain_of_printing {c : Char} (printing : 32 ≤ c.toNat) (unquoted : c ≠ '"')
    (unescaped : c ≠ '\\') :
    ∀ byte ∈ String.utf8EncodeChar c, 32 ≤ byte ∧ byte ≠ 34 ∧ byte ≠ 92 := by
  intro byte member
  have ascii := Bytes.toNat_eq_of_mem_utf8EncodeChar member
  have same : ∀ other : Char, other.toNat < 128 → byte.toNat = other.toNat → c = other := by
    intro other small equal
    apply Char.ext
    apply UInt32.toNat_inj.mp
    exact (ascii (equal ▸ small)).trans equal
  refine ⟨?_, ?_, ?_⟩
  · rw [UInt8.le_iff_toNat_le]
    apply Nat.le_of_not_lt
    intro low
    have low : byte.toNat < 32 := low
    have code := ascii (by omega)
    omega
  · rintro rfl
    exact unquoted (same '"' (by decide) rfl)
  · rintro rfl
    exact unescaped (same '\\' (by decide) rfl)

/-- A step takes a byte at least, so that `fuel` for all bytes leaves enough for those behind. -/
theorem stringBytes_of_spelled {c : Char} {piece : Bytes} (spelled : Spelled c piece)
    {fuel : Nat} (enough : piece.length ≤ fuel) (rest : Bytes) :
    ∃ left, fuel ≤ left + piece.length ∧
      stringBytes cut fuel (piece ++ rest) =
        behind (String.utf8EncodeChar c) (stringBytes cut left rest) := by
  cases spelled with
  | plain printing unquoted unescaped =>
    obtain ⟨left, rfl⟩ := Nat.exists_eq_add_of_le' enough
    exact ⟨left, Nat.le_refl _,
      stringBytes_of_plain (plain_of_printing printing unquoted unescaped) left rest⟩
  | short listed =>
    obtain ⟨left, rfl⟩ := Nat.exists_eq_add_of_le' (Nat.le_of_lt enough)
    exact ⟨left, by simp, stringBytes_escape (unescape_of_short listed rest) left⟩
  | unit written whole =>
    obtain ⟨left, rfl⟩ := Nat.exists_eq_add_of_le' (Nat.le_trans (by simp) enough : 1 ≤ fuel)
    exact ⟨left, by simp, stringBytes_escape (unescape_of_unit written whole rest) left⟩
  | pair written more high_small low_small =>
    obtain ⟨left, rfl⟩ := Nat.exists_eq_add_of_le' (Nat.le_trans (by simp) enough : 1 ≤ fuel)
    have read := @unescape_of_pair cut _ _ _ _ written more high_small low_small rest
    refine ⟨left, by simp, ?_⟩
    simpa using stringBytes_escape read left

theorem stringBytes_of_spelledAll {chars : List Char} {body : Bytes}
    (spelled : SpelledAll chars body) {fuel : Nat} (enough : body.length < fuel) (rest : Bytes) :
    stringBytes cut fuel (body ++ 34 :: rest) =
      .ok (chars.flatMap String.utf8EncodeChar, rest) := by
  induction spelled generalizing fuel with
  | nil =>
    obtain ⟨fuel, rfl⟩ := Nat.exists_eq_succ_of_ne_zero (Nat.ne_of_gt enough)
    exact stringBytes_quote fuel rest
  | @cons c chars first others head tail ih =>
    rw [List.length_append] at enough
    obtain ⟨left, bound, read⟩ :=
      @stringBytes_of_spelled cut c first head fuel (by omega) (others ++ 34 :: rest)
    rw [List.append_assoc, read, ih (by omega)]
    rfl

theorem string_of_spelled {text : String} {body : Bytes} (spelled : SpelledAll text.toList body)
    (rest : Bytes) : string cut (body ++ 34 :: rest) = .ok (text, rest) := by
  have enough : body.length < (body ++ 34 :: rest).length + 1 := by
    rw [List.length_append]
    omega
  rw [string, stringBytes_of_spelledAll spelled enough, ← Bytes.ofText_eq_flatMap]
  simp only [bind, Except.bind, Bytes.toText?_ofText]

end LinkArchive.Json
