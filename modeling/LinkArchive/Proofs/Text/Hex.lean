import LinkArchive.Proofs.Text.Utf8
import LinkArchive.Text.Numeral
import Mathlib.Data.List.TakeWhile

/-!
# Reading hexadecimal text

A text is read as some bytes if it is how they are written but for the case of its letters:
`Text.ofHex_of_toLower`. `Text.ofHex_outcome` says of any other text what is wrong with it.
-/

namespace LinkArchive.Text

/-! ### Digits -/

def isHexDigit (byte : UInt8) : Bool :=
  "0123456789abcdefABCDEF".toList.contains (Char.ofNat byte.toNat)

/-- The digits of a byte, high half first. -/
def hexPair (byte : UInt8) : List Char := [hexDigit (byte / 16), hexDigit (byte % 16)]

/-- A digit in lower case. -/
def lowerDigit (byte : UInt8) : Char := (Char.ofNat byte.toNat).toLower

theorem toList_toHex (bytes : Bytes) : (toHex bytes).toList = bytes.flatMap hexPair :=
  String.toList_ofList

theorem isHexDigit_eq_isSome (byte : UInt8) : isHexDigit byte = (hexValue? byte).isSome := by
  have all : ∀ code < 256,
      isHexDigit (UInt8.ofNat code) = (hexValue? (UInt8.ofNat code)).isSome := by decide +kernel
  simpa using all byte.toNat byte.toNat_lt

theorem hexDigit_of_hexValue? {byte value : UInt8} (read : hexValue? byte = some value) :
    value < 16 ∧ hexDigit value = lowerDigit byte := by
  have all : ∀ code < 256, (hexValue? (UInt8.ofNat code)).all (fun value =>
      decide (value < 16 ∧ hexDigit value = lowerDigit (UInt8.ofNat code))) = true := by
    decide +kernel
  have digit := all byte.toNat byte.toNat_lt
  rw [UInt8.ofNat_toNat, read] at digit
  exact of_decide_eq_true digit

theorem hexPair_of_halves {high low : UInt8} (high_small : high < 16) (low_small : low < 16) :
    hexPair (16 * high + low) = [hexDigit high, hexDigit low] := by
  have halves : ∀ high < 16, ∀ low < 16,
      (16 * UInt8.ofNat high + UInt8.ofNat low) / 16 = UInt8.ofNat high ∧
        (16 * UInt8.ofNat high + UInt8.ofNat low) % 16 = UInt8.ofNat low := by decide +kernel
  obtain ⟨quotient, remainder⟩ := halves high.toNat high_small low.toNat low_small
  rw [UInt8.ofNat_toNat, UInt8.ofNat_toNat] at quotient remainder
  rw [hexPair, quotient, remainder]

/-- Digits are read two by two, up to the first byte that is none. -/
theorem ofHexDigits_outcome (position : Nat) (digits : Bytes) (even : digits.length % 2 = 0) :
    match digits.dropWhile isHexDigit with
    | byte :: _ => ofHexDigits position digits =
        .error (.badDigit byte (position + (digits.takeWhile isHexDigit).length))
    | [] => ∃ bytes, ofHexDigits position digits = .ok bytes ∧
        digits.map lowerDigit = bytes.flatMap hexPair := by
  fun_induction ofHexDigits position digits with
  | case1 => exact ⟨[], rfl, rfl⟩
  | case2 => simp at even
  | case3 position high low rest none =>
    simp [isHexDigit_eq_isSome, none]
  | case4 position high low rest none digit =>
    have first : (hexValue? high).isSome = true := Option.isSome_iff_ne_none.mpr digit
    simp [isHexDigit_eq_isSome, none, first]
  | case5 position high low rest highValue lowValue read_low read_high ih =>
    have even : rest.length % 2 = 0 := by
      simp only [List.length_cons] at even
      omega
    have later := ih even
    simp only [List.dropWhile_cons, List.takeWhile_cons, isHexDigit_eq_isSome high,
      isHexDigit_eq_isSome low, read_high, read_low, Option.isSome_some, if_true]
    split at later
    · rename_i byte _ bad
      have place : position + 2 + (rest.takeWhile isHexDigit).length =
          position + ((rest.takeWhile isHexDigit).length + 1 + 1) := by omega
      rw [later, place]
      rfl
    · rename_i fine
      obtain ⟨bytes, read, written⟩ := later
      obtain ⟨high_small, high_digit⟩ := hexDigit_of_hexValue? read_high
      obtain ⟨low_small, low_digit⟩ := hexDigit_of_hexValue? read_low
      rw [read]
      refine ⟨_, rfl, ?_⟩
      rw [List.flatMap_cons, hexPair_of_halves high_small low_small, ← written, high_digit,
        low_digit]
      rfl

theorem halves_lt (byte : UInt8) : byte / 16 < 16 ∧ byte % 16 < 16 := by
  have bound := byte.toNat_lt
  simp only [UInt8.lt_iff_toNat_lt, UInt8.toNat_div, UInt8.toNat_mod, UInt8.reduceToNat]
  omega

theorem hexPair_injective {first second : UInt8} (same : hexPair first = hexPair second) :
    first = second := by
  have all : ∀ a < 16, ∀ b < 16,
      hexDigit (UInt8.ofNat a) = hexDigit (UInt8.ofNat b) → a = b := by decide +kernel
  have digit_injective {a b : UInt8} (a_small : a < 16) (b_small : b < 16)
      (same : hexDigit a = hexDigit b) : a.toNat = b.toNat := by
    apply all a.toNat a_small b.toNat b_small
    rwa [UInt8.ofNat_toNat, UInt8.ofNat_toNat]
  simp only [hexPair, List.cons.injEq, and_true] at same
  have high := digit_injective (halves_lt first).1 (halves_lt second).1 same.1
  have low := digit_injective (halves_lt first).2 (halves_lt second).2 same.2
  simp only [UInt8.toNat_div, UInt8.toNat_mod, UInt8.reduceToNat] at high low
  apply UInt8.toNat_inj.mp
  omega

theorem flatMap_hexPair_injective {first second : Bytes}
    (same : first.flatMap hexPair = second.flatMap hexPair) : first = second := by
  induction first generalizing second with
  | nil =>
    cases second with
    | nil => rfl
    | cons => simp [hexPair] at same
  | cons byte first ih =>
    cases second with
    | nil => simp [hexPair] at same
    | cons other second =>
      rw [List.flatMap_cons, List.flatMap_cons] at same
      obtain ⟨head, tail⟩ := List.append_inj same rfl
      rw [hexPair_injective head, ih tail]

theorem toHex_injective {first second : Bytes} (same : toHex first = toHex second) :
    first = second := by
  apply flatMap_hexPair_injective
  rw [← toList_toHex, same, toList_toHex]

theorem length_flatMap_hexPair (bytes : Bytes) :
    (bytes.flatMap hexPair).length = 2 * bytes.length := by
  induction bytes with
  | nil => rfl
  | cons byte bytes ih =>
    rw [List.flatMap_cons, List.length_append, ih, List.length_cons]
    show 2 + 2 * bytes.length = _
    omega

/-! ### Texts -/

variable {text : String} {bytes : Bytes}

theorem ascii_of_isHexDigit {byte : UInt8} (digit : isHexDigit byte = true) : byte.toNat < 128 := by
  have all : ∀ code < 256, isHexDigit (UInt8.ofNat code) = true → code < 128 := by decide +kernel
  exact all byte.toNat byte.toNat_lt (by rwa [UInt8.ofNat_toNat])

theorem toList_toLower (text : String) : text.toLower.toList = text.toList.map Char.toLower :=
  String.toList_map

theorem map_lowerDigit (ascii : ∀ c ∈ text.toList, c.toNat < 128) :
    (Bytes.ofText text).map lowerDigit = text.toLower.toList := by
  rw [Bytes.ofText_of_ascii ascii, List.map_map, toList_toLower]
  apply List.map_congr_left
  intro c present
  have small := ascii c present
  have code : (UInt8.ofNat c.toNat).toNat = c.toNat :=
    UInt8.toNat_ofNat_of_lt' (Nat.lt_trans small (by decide))
  show (Char.ofNat (UInt8.ofNat c.toNat).toNat).toLower = c.toLower
  rw [code, Char.ofNat_toNat]

/-- What is wrong with a text, or the bytes that it is read as. -/
theorem ofHex_outcome (text : String) :
    let digits := Bytes.ofText text
    if digits.length % 2 = 1 then ofHex text = .error .oddLength
    else match digits.dropWhile isHexDigit with
      | byte :: _ =>
        ofHex text = .error (.badDigit byte (digits.takeWhile isHexDigit).length)
      | [] => ∃ bytes, ofHex text = .ok bytes ∧ text.toLower = toHex bytes := by
  intro digits
  unfold ofHex
  dsimp only
  by_cases odd : digits.length % 2 = 1
  · rw [if_pos odd, if_pos (by simpa using odd)]
  · have read := ofHexDigits_outcome 0 digits (by omega)
    rw [if_neg odd, if_neg (by simpa using odd)]
    split at read
    · rw [read, Nat.zero_add]
    · rename_i fine
      obtain ⟨bytes, read, written⟩ := read
      have ascii := Bytes.ascii_of_ofText fun byte present =>
        ascii_of_isHexDigit (List.dropWhile_eq_nil_iff.mp fine byte present)
      rw [map_lowerDigit ascii] at written
      exact ⟨bytes, read, String.toList_inj.mp (written.trans (toList_toHex bytes).symm)⟩

theorem isHexDigit_of_toLower {c : Char} {value : UInt8} (small : value < 16)
    (lower : c.toLower = hexDigit value) :
    c.toNat < 128 ∧ isHexDigit (UInt8.ofNat c.toNat) = true := by
  have all : ∀ value < 16, ∀ code < 128, (Char.ofNat code).toLower = hexDigit (UInt8.ofNat value) →
      isHexDigit (UInt8.ofNat code) = true := by decide +kernel
  have shown : ∀ value < 16, (hexDigit (UInt8.ofNat value)).toNat < 128 := by decide +kernel
  have ascii : c.toNat < 128 := by
    unfold Char.toLower at lower
    split at lower
    · rename_i upper
      exact Nat.lt_of_le_of_lt upper.2 (by decide)
    · rw [lower, ← UInt8.ofNat_toNat (x := value)]
      exact shown value.toNat small
  refine ⟨ascii, all value.toNat small c.toNat ascii ?_⟩
  rw [Char.ofNat_toNat, UInt8.ofNat_toNat, lower]

theorem exists_hexDigit_of_mem {c : Char} (member : c ∈ bytes.flatMap hexPair) :
    ∃ value < 16, hexDigit value = c := by
  obtain ⟨byte, -, digit⟩ := List.mem_flatMap.mp member
  obtain ⟨high, low⟩ := halves_lt byte
  have either : c = hexDigit (byte / 16) ∨ c = hexDigit (byte % 16) := by
    simpa [hexPair] using digit
  rcases either with rfl | rfl
  · exact ⟨_, high, rfl⟩
  · exact ⟨_, low, rfl⟩

theorem isHexDigit_of_mem (written : text.toLower = toHex bytes) :
    ∀ c ∈ text.toList, c.toNat < 128 ∧ isHexDigit (UInt8.ofNat c.toNat) = true := by
  intro c present
  have lower : c.toLower ∈ bytes.flatMap hexPair := by
    rw [← toList_toHex, ← written, toList_toLower]
    exact List.mem_map_of_mem present
  obtain ⟨value, small, same⟩ := exists_hexDigit_of_mem lower
  exact isHexDigit_of_toLower small same.symm

theorem ofHex_of_toLower (written : text.toLower = toHex bytes) : ofHex text = .ok bytes := by
  have digits := isHexDigit_of_mem written
  have encoded := Bytes.ofText_of_ascii fun c present => (digits c present).1
  have even : (Bytes.ofText text).length = 2 * bytes.length := by
    have length := congrArg (·.toList.length) written
    simp only [toList_toLower, List.length_map, toList_toHex, length_flatMap_hexPair] at length
    rw [encoded, List.length_map, length]
  have all : (Bytes.ofText text).dropWhile isHexDigit = [] := by
    rw [List.dropWhile_eq_nil_iff, encoded]
    intro byte member
    obtain ⟨c, present, rfl⟩ := List.mem_map.mp member
    exact (digits c present).2
  have outcome := ofHex_outcome text
  dsimp only at outcome
  rw [if_neg (by omega), all] at outcome
  obtain ⟨read, found, same⟩ := outcome
  rw [found, toHex_injective (same.symm.trans written)]

end LinkArchive.Text
