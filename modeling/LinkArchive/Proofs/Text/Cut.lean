import LinkArchive.Text.Cut
import Mathlib.Data.List.DropRight

/-!
# What is cut off

A list is cut before the first occurrence of a piece, so that the piece is nowhere in what is left:
`Text.not_infix_before`. A list loses its longest tail of some kind of elements, so that none of
them is its last one: `Text.last_dropTrailing`.
-/

namespace LinkArchive.Text

/-! ### Before a piece -/

section Before

variable {α : Type} [BEq α] [LawfulBEq α] {needle : List α}

/-- What is cut off begins with the piece. -/
theorem exists_before_append (needle list : List α) :
    ∃ rest, list = before needle list ++ rest ∧ (rest = [] ∨ needle <+: rest) := by
  induction list with
  | nil => exact ⟨[], rfl, .inl rfl⟩
  | cons x xs ih =>
    rw [before]
    split
    · rename_i here
      exact ⟨x :: xs, rfl, .inr (List.isPrefixOf_iff_prefix.mp here)⟩
    · obtain ⟨rest, whole, cut⟩ := ih
      exact ⟨rest, by rw [List.cons_append, ← whole], cut⟩

theorem before_isPrefix (needle list : List α) : before needle list <+: list := by
  obtain ⟨rest, whole, -⟩ := exists_before_append needle list
  exact ⟨rest, whole.symm⟩

theorem not_infix_before (nonempty : needle ≠ []) (list : List α) :
    ¬needle <:+: before needle list := by
  induction list with
  | nil => simpa [before] using nonempty
  | cons x xs ih =>
    rw [before]
    split
    · simpa using nonempty
    · rename_i elsewhere
      rw [List.infix_cons_iff]
      rintro (here | later)
      · have whole : needle <+: x :: xs :=
          here.trans ((List.prefix_cons_inj x).mpr (before_isPrefix needle xs))
        exact elsewhere (List.isPrefixOf_iff_prefix.mpr whole)
      · exact ih later

theorem before_of_not_infix {list : List α} (absent : ¬needle <:+: list) :
    before needle list = list := by
  obtain ⟨rest, whole, none | found⟩ := exists_before_append needle list
  · rw [none, List.append_nil] at whole
    exact whole.symm
  · have inside : needle <:+: before needle list ++ rest :=
      found.isInfix.trans (List.suffix_append _ _).isInfix
    rw [← whole] at inside
    exact absurd inside absent

end Before

/-! ### Endings -/

theorem dropEnding?_eq_some_iff {α : Type} [BEq α] [LawfulBEq α] {ending list front : List α} :
    dropEnding? ending list = some front ↔ list = front ++ ending := by
  unfold dropEnding?
  rw [Option.ite_none_right_eq_some, List.isSuffixOf_iff_suffix, Option.some.injEq]
  constructor
  · rintro ⟨⟨before, rfl⟩, rfl⟩
    simp
  · rintro rfl
    exact ⟨List.suffix_append _ _, by simp⟩

/-! ### Without a tail -/

section Trailing

variable {α : Type} {p : α → Bool}

theorem dropTrailing_isPrefix (p : α → Bool) (list : List α) : dropTrailing p list <+: list :=
  List.rdropWhile_prefix p list

theorem exists_dropTrailing_append (p : α → Bool) (list : List α) :
    ∃ tail, list = dropTrailing p list ++ tail ∧ ∀ x ∈ tail, p x = true := by
  refine ⟨list.rtakeWhile p, List.rdropWhile_append_rtakeWhile.symm, ?_⟩
  intro x member
  exact List.mem_rtakeWhile_imp member

theorem last_dropTrailing (list : List α) : ∀ x ∈ (dropTrailing p list).getLast?, p x = false := by
  intro x last
  obtain ⟨nonempty, rfl⟩ := List.mem_getLast?_eq_getLast last
  exact Bool.eq_false_iff.mpr (List.rdropWhile_last_not p list nonempty)

theorem dropTrailing_eq_self_iff {list : List α} :
    dropTrailing p list = list ↔ ∀ x ∈ list.getLast?, p x = false := by
  constructor
  · intro same
    rw [← same]
    exact last_dropTrailing list
  · intro fine
    apply List.rdropWhile_eq_self_iff.mpr
    intro nonempty
    rw [fine _ (List.getLast_mem_getLast? nonempty)]
    exact Bool.false_ne_true

end Trailing

end LinkArchive.Text
