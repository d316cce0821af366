import LinkArchive.Text.Numeral
import Mathlib.Data.List.Induction
import Mathlib.Data.Nat.Digits.Defs

/-!
# Which texts are numerals

A text is read as a number if and only if it is a decimal numeral of it, and the number fits in a
word: `Text.word64?_eq_some_iff`.
-/

namespace LinkArchive.Text

/-- The number that decimal digits stand for. -/
def decimal (digits : List Char) : Nat :=
  Nat.ofDigits 10 (digits.reverse.map fun digit => digit.toNat - '0'.toNat)

/-- A decimal numeral of a number: one or more digits, maybe behind a plus sign. -/
def IsNumeral (numeral : List Char) (value : Nat) : Prop :=
  ∃ digits, (numeral = digits ∨ numeral = '+' :: digits) ∧ digits ≠ [] ∧
    (∀ digit ∈ digits, '0' ≤ digit ∧ digit ≤ '9') ∧ decimal digits = value

theorem digitsValue_eq_decimal (digits : List Char) : digitsValue digits = decimal digits := by
  induction digits using List.reverseRecOn with
  | nil => rfl
  | append_singleton digits digit ih =>
    have value : digitsValue (digits ++ [digit]) =
        10 * digitsValue digits + (digit.toNat - 48) := by
      rw [digitsValue, List.foldl_append]
      rfl
    have written : decimal (digits ++ [digit]) = digit.toNat - 48 + 10 * decimal digits := by
      rw [decimal, List.reverse_append, List.reverse_singleton, List.singleton_append,
        List.map_cons, Nat.ofDigits_cons]
      rfl
    rw [value, written, ih, Nat.add_comm]

theorem dropPlus_of_digits {digits : List Char}
    (all : ∀ digit ∈ digits, '0' ≤ digit ∧ digit ≤ '9') : dropPlus digits = digits := by
  unfold dropPlus
  split
  · rename_i rest
    exact absurd (all '+' List.mem_cons_self) (by decide)
  · rfl

theorem eq_dropPlus_or (numeral : List Char) :
    numeral = dropPlus numeral ∨ numeral = '+' :: dropPlus numeral := by
  unfold dropPlus
  split
  · exact .inr rfl
  · exact .inl rfl

theorem word64?_eq_some_iff {numeral : List Char} {value : Nat} :
    word64? numeral = some value ↔ IsNumeral numeral value ∧ value < 2 ^ 64 := by
  have read : word64? numeral = some value ↔ (dropPlus numeral ≠ [] ∧
      (∀ digit ∈ dropPlus numeral, '0' ≤ digit ∧ digit ≤ '9') ∧
        digitsValue (dropPlus numeral) < 2 ^ 64) ∧ digitsValue (dropPlus numeral) = value := by
    simp [word64?, isDigit, and_assoc]
  rw [read, digitsValue_eq_decimal]
  constructor
  · rintro ⟨⟨nonempty, all, small⟩, rfl⟩
    exact ⟨⟨dropPlus numeral, eq_dropPlus_or numeral, nonempty, all, rfl⟩, small⟩
  · rintro ⟨⟨digits, written, nonempty, all, rfl⟩, small⟩
    have same : dropPlus numeral = digits := by
      rcases written with rfl | rfl
      · exact dropPlus_of_digits all
      · rfl
    rw [same]
    exact ⟨⟨nonempty, all, small⟩, rfl⟩

end LinkArchive.Text
