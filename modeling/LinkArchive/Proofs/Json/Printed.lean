import LinkArchive.Release.Metadata.Printer
import LinkArchive.Proofs.Json.Number
import LinkArchive.Proofs.Text.Utf8
import Mathlib.Data.List.Forall2

/-!
# Printed JSON

What is printed is JSON, and stands for what it was printed from: texts with all their characters
(`Json.quoted_printed`), integers (`NumberLiteral.bytes_ofInt`, `NumberLiteral.integer?_ofInt`), and
zeros of both signs (`NumberLiteral.bytes_zero`, `NumberLiteral.number?_zero`).
-/

namespace LinkArchive.Json

/-! ### Texts -/

theorem hexDigit_digitChar {value : Nat} (small : value < 16) :
    HexDigit value (UInt8.ofNat (Nat.digitChar value).toNat) := by
  have letter : ∀ value < 16, 10 ≤ value → (Nat.digitChar value).toNat = 87 + value := by decide
  by_cases decimal : value < 10
  · rw [Nat.toNat_digitChar_of_lt_ten decimal]
    exact .decimal decimal
  · have large : 10 ≤ value := Nat.le_of_not_lt decimal
    rw [letter value small large]
    exact .lower large small

theorem digitChar_ascii {value : Nat} (small : value < 16) : (Nat.digitChar value).toNat < 128 := by
  revert value
  decide

theorem spelled_short {c letter : Char} (listed : (c, UInt8.ofNat letter.toNat) ∈ shortEscapes)
    (ascii : letter.toNat < 128) : Spelled c (['\\', letter].flatMap String.utf8EncodeChar) := by
  rw [Bytes.flatMap_of_ascii (by simp [ascii])]
  exact .short listed

theorem spelled_unit {c : Char} (control : c.toNat < 32) :
    Spelled c (['\\', 'u', '0', '0', Nat.digitChar (c.toNat / 16),
      Nat.digitChar (c.toNat % 16)].flatMap String.utf8EncodeChar) := by
  have high : c.toNat / 16 < 16 := by omega
  have low : c.toNat % 16 < 16 := by omega
  have zero : HexDigit 0 48 := .decimal (by decide)
  have digits := Unit16.digits zero zero (hexDigit_digitChar high) (hexDigit_digitChar low)
  have code : 4096 * 0 + 256 * 0 + 16 * (c.toNat / 16) + c.toNat % 16 = c.toNat := by omega
  rw [code] at digits
  rw [Bytes.flatMap_of_ascii (by simp [digitChar_ascii high, digitChar_ascii low])]
  have spelled := Spelled.unit digits (.inl (by omega))
  rw [Char.ofNat_toNat] at spelled
  exact spelled

theorem spelled_escape (c : Char) : Spelled c ((escape c).flatMap String.utf8EncodeChar) := by
  by_cases short : c ∈ ['"', '\\', '\x08', '\x0c', '\n', '\r', '\t']
  · simp only [List.mem_cons, List.not_mem_nil, or_false] at short
    rcases short with rfl | rfl | rfl | rfl | rfl | rfl | rfl <;>
      exact spelled_short (by decide) (by decide)
  · simp only [List.mem_cons, List.not_mem_nil, or_false, not_or] at short
    obtain ⟨quote, backslash, backspace, feed, line, back, tab⟩ := short
    simp only [escape, beq_iff_eq, quote, backslash, backspace, feed, line, back, tab, if_false]
    split
    · rename_i control
      exact spelled_unit control
    · rename_i printing
      rw [List.flatMap_singleton]
      exact .plain (Nat.le_of_not_lt printing) quote backslash

theorem spelledAll_escape (chars : List Char) :
    SpelledAll chars ((chars.flatMap escape).flatMap String.utf8EncodeChar) := by
  induction chars with
  | nil => exact .nil
  | cons c chars ih =>
    rw [List.flatMap_cons, List.flatMap_append]
    exact .cons (spelled_escape c) ih

theorem quoted_printed (text : String) : Quoted text (Bytes.ofText (quoted text)) := by
  have quote : ['"'].flatMap String.utf8EncodeChar = [34] :=
    Bytes.flatMap_of_ascii (List.forall_mem_singleton.mpr (by decide))
  rw [Bytes.ofText_eq_flatMap, quoted, String.toList_ofList, ← List.singleton_append,
    List.append_assoc, List.flatMap_append, List.flatMap_append, quote, List.singleton_append]
  exact .quotes (spelledAll_escape text.toList)

/-! ### Integers -/

/-- The digits of a number, without a zero in front of others. -/
def decimalDigits (value : Nat) : List Digit :=
  if value < 10 then [Fin.ofNat 10 value] else decimalDigits (value / 10) ++ [Fin.ofNat 10 value]

theorem decimalDigits_zero : decimalDigits 0 = [0] := by simp [decimalDigits]

theorem valueFrom_append (value : Nat) (first second : List Digit) :
    valueFrom value (first ++ second) = valueFrom (valueFrom value first) second :=
  List.foldl_append

theorem valueFrom_decimalDigits (value : Nat) : valueFrom 0 (decimalDigits value) = value := by
  fun_induction decimalDigits value with
  | case1 value small =>
    show 10 * 0 + value % 10 = value
    omega
  | case2 value large ih =>
    rw [valueFrom_append, ih]
    show 10 * (value / 10) + value % 10 = value
    omega

theorem decimalDigits_ne_nil (value : Nat) : decimalDigits value ≠ [] := by
  unfold decimalDigits
  split <;> simp

theorem eq_zero_of_decimalDigits {value : Nat} (zero : (decimalDigits value).head? = some 0) :
    value = 0 := by
  fun_induction decimalDigits value with
  | case1 value small =>
    have zero : value % 10 = 0 := congrArg Fin.val (Option.some.inj zero)
    omega
  | case2 value large ih =>
    rw [List.head?_append_of_ne_nil _ (decimalDigits_ne_nil _)] at zero
    have none := ih zero
    omega

theorem digitBytes_decimalDigits (value : Nat) :
    digitBytes (decimalDigits value) = (Nat.toDigits 10 value).flatMap String.utf8EncodeChar := by
  have last (value : Nat) : [Digit.byte (Fin.ofNat 10 value)] =
      [Nat.digitChar (value % 10)].flatMap String.utf8EncodeChar := by
    have small : value % 10 < 10 := by omega
    rw [Bytes.flatMap_of_ascii (by simp [digitChar_ascii (Nat.lt_trans small (by decide))])]
    rw [List.map_singleton, Nat.toNat_digitChar_of_lt_ten small]
    rfl
  fun_induction decimalDigits value with
  | case1 value small =>
    rw [Nat.toDigits_of_lt_base small, digitBytes, List.map_singleton, last,
      Nat.mod_eq_of_lt small]
  | case2 value large ih =>
    rw [Nat.toDigits_eq_if (by decide), if_neg large, List.flatMap_append, ← ih, ← last,
      digitBytes, List.map_append, List.map_singleton]
    rfl

namespace NumberLiteral

/-- The literal that an integer is printed as. -/
def ofInt (value : Int) : NumberLiteral where
  negative := decide (value < 0)
  whole := decimalDigits value.natAbs
  nonempty := decimalDigits_ne_nil value.natAbs
  unpadded zero := by
    rw [eq_zero_of_decimalDigits zero, decimalDigits_zero]

theorem integer?_ofInt (value : Int) : (ofInt value).integer? = some value := by
  have digits : valueFrom 0 (ofInt value).whole = value.natAbs := valueFrom_decimalDigits _
  have sign : (ofInt value).negative = decide (value < 0) := rfl
  rw [integer?_of_whole _ rfl, digits, sign]
  by_cases negative : value < 0
  · have unpadded : (ofInt value).whole ≠ [0] := by
      intro zero
      have none : value.natAbs = 0 := eq_zero_of_decimalDigits (congrArg List.head? zero)
      omega
    rw [if_pos (decide_eq_true negative), if_neg unpadded]
    congr 1
    omega
  · rw [if_neg (by simpa using negative)]
    congr 1
    omega

theorem bytes_ofInt (value : Int) : (ofInt value).bytes = Bytes.ofText (toString value) := by
  have digits (value : Nat) : digitBytes (decimalDigits value) = Bytes.ofText value.repr := by
    rw [Bytes.ofText_eq_flatMap, Nat.toList_repr, digitBytes_decimalDigits]
  have minus : Bytes.ofText "-" = [45] := by decide +kernel
  cases value with
  | ofNat value =>
    show [] ++ (digitBytes (decimalDigits value) ++ ([] ++ [])) = Bytes.ofText value.repr
    simp [digits]
  | negSucc value =>
    have negative : (ofInt (Int.negSucc value)).negative = true :=
      decide_eq_true (Int.negSucc_lt_zero value)
    rw [bytes, if_pos negative]
    show [45] ++ (digitBytes (decimalDigits (value + 1)) ++ ([] ++ [])) =
      Bytes.ofText ("-" ++ (value + 1).repr)
    rw [Bytes.ofText_append, minus, digits, List.append_nil, List.append_nil]

end NumberLiteral

/-! ### Zeros -/

section Zeros

open Float.Model

theorem eq_of_toBits {a b : Float} (same : a.toBits = b.toBits) : a = b := by
  rcases a with ⟨bits, valid⟩
  rcases b with ⟨bits', valid'⟩
  obtain rfl : bits = bits' := same
  rfl

theorem unpack_of_beq_zero {value : Float} (zero : (value == 0) = true) :
    ∃ sign : UnpackedFloat.Sign, value.toModel.unpack = .zero sign := by
  have compared : value.toModel.unpack.beq (.zero .positive) = true := zero
  cases found : value.toModel.unpack with
  | zero sign => exact ⟨sign, rfl⟩
  | notANumber =>
    rw [found] at compared
    cases compared
  | infinity sign =>
    rw [found] at compared
    cases sign <;> cases compared
  | finite sign =>
    rw [found] at compared
    cases sign <;> cases compared

theorem fields_of_unpack_zero {bits : BitVec 64} {sign : UnpackedFloat.Sign}
    (unpacked : UnpackedFloat.unpack Format.binary64 bits = .zero sign) :
    @UnpackedFloat.unpackExponent Format.binary64 bits = 0#_ ∧
      @UnpackedFloat.unpackMantissa Format.binary64 bits = 0#_ := by
  unfold UnpackedFloat.unpack at unpacked
  dsimp only at unpacked
  by_cases full : @UnpackedFloat.unpackExponent Format.binary64 bits = -1#_
  · rw [if_pos full] at unpacked
    by_cases none : @UnpackedFloat.unpackMantissa Format.binary64 bits = 0#_
    · rw [if_pos none] at unpacked
      cases unpacked
    · rw [if_neg none] at unpacked
      cases unpacked
  · rw [if_neg full] at unpacked
    by_cases exponent : @UnpackedFloat.unpackExponent Format.binary64 bits = 0#_
    · rw [if_pos exponent] at unpacked
      by_cases mantissa : @UnpackedFloat.unpackMantissa Format.binary64 bits = 0#_
      · exact ⟨exponent, mantissa⟩
      · rw [dif_neg mantissa] at unpacked
        cases unpacked
    · rw [if_neg exponent] at unpacked
      cases unpacked

theorem bits_of_unpack_zero {bits : BitVec 64} {sign : UnpackedFloat.Sign}
    (unpacked : UnpackedFloat.unpack Format.binary64 bits = .zero sign) :
    bits = 0 ∨ bits = 0x8000000000000000 := by
  obtain ⟨exponent, mantissa⟩ := fields_of_unpack_zero unpacked
  have low : bits.toNat % 2 ^ 52 = 0 := by
    simpa [UnpackedFloat.unpackMantissa] using congrArg BitVec.toNat mantissa
  have high : bits.toNat >>> 52 % 2 ^ 11 = 0 := by
    simpa [UnpackedFloat.unpackExponent] using congrArg BitVec.toNat exponent
  rw [Nat.shiftRight_eq_div_pow] at high
  have either : bits.toNat = 0 ∨ bits.toNat = 0x8000000000000000 := by
    have bound := bits.isLt
    omega
  exact either.imp BitVec.eq_of_toNat_eq BitVec.eq_of_toNat_eq

/-- No double is equal to zero but the zeros of both signs. -/
theorem exists_signed_of_beq_zero {value : Float} (zero : (value == 0) = true) :
    ∃ positive, value = signed positive 0 := by
  obtain ⟨sign, unpacked⟩ := unpack_of_beq_zero zero
  rcases bits_of_unpack_zero unpacked with bits | bits
  · exact ⟨true, eq_of_toBits (UInt64.toBitVec_inj.mp bits)⟩
  · have minus : (signed false 0).toBits = 0x8000000000000000 := by decide +kernel
    refine ⟨false, eq_of_toBits (UInt64.toBitVec_inj.mp ?_)⟩
    rw [minus]
    exact bits

end Zeros

namespace NumberLiteral

/-- The literal that a zero is printed as. -/
def zero (positive : Bool) : NumberLiteral where
  negative := !positive
  whole := [0]
  fraction := [0]

theorem number?_zero (positive : Bool) :
    (zero positive).number? = some (.float (signed positive 0)) := by
  have scaled : scale (0 : Nat).toUInt64.toFloat (-1) = some 0 := by
    rw [scale, if_neg (by decide), if_pos (by decide)]
    rfl
  have read : (zero positive).number? =
      ((scale (0 : Nat).toUInt64.toFloat (-1)).map (signed (!!positive))).map .float := rfl
  rw [read, scaled, Bool.not_not]
  rfl

theorem bytes_zero (positive : Bool) :
    (zero positive).bytes = Bytes.ofText (float (signed positive 0)) := by
  cases positive <;> decide +kernel

end NumberLiteral

/-! ### Arrays and objects -/

theorem ofText_intercalate (first second : String) (texts : List String) :
    Bytes.ofText (",".intercalate (first :: second :: texts)) =
      Bytes.ofText first ++ 44 :: Bytes.ofText (",".intercalate (second :: texts)) := by
  have comma : Bytes.ofText "," = [44] := by decide +kernel
  rw [String.intercalate_cons_cons, Bytes.ofText_append, Bytes.ofText_append, comma,
    List.append_assoc, List.singleton_append]

theorem blank_nil : Blank [] := nofun

theorem elements_printed {values : List Value} {texts : List String}
    (each : List.Forall₂ (fun value text => Written value (Bytes.ofText text)) values texts)
    (nonempty : values ≠ []) : WrittenElements values (Bytes.ofText (",".intercalate texts)) := by
  induction each with
  | nil => exact absurd rfl nonempty
  | @cons value text values texts written others ih =>
    cases others with
    | nil =>
      have last := WrittenElements.last blank_nil written blank_nil
      simpa using last
    | cons _ _ =>
      have more := WrittenElements.more blank_nil written blank_nil (ih (by simp))
      rw [ofText_intercalate]
      simpa using more

theorem array_printed {values : List Value} {texts : List String}
    (each : List.Forall₂ (fun value text => Written value (Bytes.ofText text)) values texts) :
    Written (.array values) (Bytes.ofText ("[" ++ ",".intercalate texts ++ "]")) := by
  have first : Bytes.ofText "[" = [91] := by decide +kernel
  have last : Bytes.ofText "]" = [93] := by decide +kernel
  rw [Bytes.ofText_append, Bytes.ofText_append, first, last, List.append_assoc,
    List.singleton_append]
  by_cases nonempty : values = []
  · subst nonempty
    cases each
    have empty : Bytes.ofText (",".intercalate []) = [] := by decide +kernel
    rw [empty]
    exact .emptyArray blank_nil
  · exact .array (elements_printed each nonempty)

theorem member_printed (key : String) {value : Value} {text : String}
    (written : Written value (Bytes.ofText text)) :
    WrittenMember (key, value) (Bytes.ofText (quoted key ++ ":" ++ text)) := by
  have colon : Bytes.ofText ":" = [58] := by decide +kernel
  have member := WrittenMember.member blank_nil (quoted_printed key) blank_nil blank_nil written
    blank_nil
  rw [Bytes.ofText_append, Bytes.ofText_append, colon, List.append_assoc]
  simpa using member

theorem members_printed {members : List (String × Value)} {texts : List String}
    (each : List.Forall₂ (fun member text => WrittenMember member (Bytes.ofText text))
      members texts)
    (nonempty : members ≠ []) : WrittenMembers members (Bytes.ofText (",".intercalate texts)) := by
  induction each with
  | nil => exact absurd rfl nonempty
  | @cons member text members texts written others ih =>
    cases others with
    | nil => simpa using WrittenMembers.last written
    | cons _ _ =>
      rw [ofText_intercalate]
      exact .more written (ih (by simp))

theorem object_printed {members : List (String × Value)} {texts : List String}
    (each : List.Forall₂ (fun member text => WrittenMember member (Bytes.ofText text))
      members texts)
    (nonempty : members ≠ []) :
    Document (.object members) (Bytes.ofText ("\x7b" ++ ",".intercalate texts ++ "\x7d")) := by
  have first : Bytes.ofText "\x7b" = [123] := by decide +kernel
  have last : Bytes.ofText "\x7d" = [125] := by decide +kernel
  have document := Document.around blank_nil (.object (members_printed each nonempty)) blank_nil
  rw [Bytes.ofText_append, Bytes.ofText_append, first, last, List.append_assoc,
    List.singleton_append]
  simpa using document

end LinkArchive.Json
