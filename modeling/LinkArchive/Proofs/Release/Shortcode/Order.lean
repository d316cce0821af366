import LinkArchive.Release.Shortcode
import LinkArchive.Proofs.Text.Utf8

/-!
# Sorted shortcodes

Codes are sorted by whether a user chose them, then by the number of their bytes, then by these
bytes. No two codes tie, so the sorted list depends on nothing but which codes there are and how
often: `Shortcode.sort_outcome`.
-/

namespace LinkArchive.Shortcode

variable {alphabet first second third : String}

/-- A code that a user chose: it has a character outside of the alphabet, if that is known. -/
def Chosen (alphabet code : String) : Prop := alphabet ≠ "" ∧ ∃ c ∈ code.toList, c ∉ alphabet.toList

theorem isVanity_iff {code : String} : isVanity alphabet code = true ↔ Chosen alphabet code := by
  simp [isVanity, Chosen]

/-- One code may stand before another: generated codes before chosen ones, and among the codes of
either kind short ones first, and then those with smaller bytes. -/
structure InOrder (alphabet first second : String) : Prop where
  generated_first : Chosen alphabet first → Chosen alphabet second
  among : (Chosen alphabet first ↔ Chosen alphabet second) →
    (Bytes.ofText first).length < (Bytes.ofText second).length ∨
      (Bytes.ofText first).length = (Bytes.ofText second).length ∧
        Bytes.ofText first ≤ Bytes.ofText second

theorem isVanity_eq_iff : isVanity alphabet first = isVanity alphabet second ↔
    (Chosen alphabet first ↔ Chosen alphabet second) := by
  rw [Bool.eq_iff_iff, isVanity_iff, isVanity_iff]

theorem le_iff_inOrder : le alphabet first second = true ↔ InOrder alphabet first second := by
  unfold le
  dsimp only
  split
  · rename_i differ
    have differ : ¬(Chosen alphabet first ↔ Chosen alphabet second) := by
      rw [← isVanity_eq_iff]
      simpa using differ
    rw [isVanity_iff]
    constructor
    · exact fun chosen => ⟨fun _ => chosen, fun same => absurd same differ⟩
    · intro inOrder
      refine Classical.byContradiction fun generated => ?_
      exact differ ⟨inOrder.generated_first, fun chosen => absurd chosen generated⟩
  · rename_i same
    have same : Chosen alphabet first ↔ Chosen alphabet second :=
      isVanity_eq_iff.mp (by simpa using same)
    have among : InOrder alphabet first second ↔
        (Bytes.ofText first).length < (Bytes.ofText second).length ∨
          (Bytes.ofText first).length = (Bytes.ofText second).length ∧
            Bytes.ofText first ≤ Bytes.ofText second :=
      ⟨fun inOrder => inOrder.among same, fun among => ⟨same.mp, fun _ => among⟩⟩
    rw [among]
    split
    · rename_i lengths
      have lengths : (Bytes.ofText first).length ≠ (Bytes.ofText second).length := by
        simpa using lengths
      simp [lengths]
    · rename_i lengths
      have lengths : (Bytes.ofText first).length = (Bytes.ofText second).length := by
        simpa using lengths
      simp [lengths]

/-! ### A total order -/

theorem InOrder.trans (before : InOrder alphabet first second)
    (after : InOrder alphabet second third) : InOrder alphabet first third := by
  refine ⟨fun chosen => after.generated_first (before.generated_first chosen), fun same => ?_⟩
  have sameBefore : Chosen alphabet first ↔ Chosen alphabet second :=
    ⟨before.generated_first, fun chosen => same.mpr (after.generated_first chosen)⟩
  have sameAfter : Chosen alphabet second ↔ Chosen alphabet third := sameBefore.symm.trans same
  rcases before.among sameBefore with shorter | ⟨length, bytes⟩
  · left
    rcases after.among sameAfter with alsoShorter | ⟨sameLength, -⟩
    · exact Nat.lt_trans shorter alsoShorter
    · rwa [← sameLength]
  · rw [length]
    rcases after.among sameAfter with shorter | ⟨sameLength, laterBytes⟩
    · exact .inl shorter
    · exact .inr ⟨sameLength, List.le_trans bytes laterBytes⟩

theorem InOrder.total (alphabet first second : String) :
    InOrder alphabet first second ∨ InOrder alphabet second first := by
  by_cases same : Chosen alphabet first ↔ Chosen alphabet second
  · rcases Nat.lt_trichotomy (Bytes.ofText first).length (Bytes.ofText second).length with
      shorter | length | longer
    · exact .inl ⟨same.mp, fun _ => .inl shorter⟩
    · rcases List.le_total (Bytes.ofText first) (Bytes.ofText second) with bytes | bytes
      · exact .inl ⟨same.mp, fun _ => .inr ⟨length, bytes⟩⟩
      · exact .inr ⟨same.mpr, fun _ => .inr ⟨length.symm, bytes⟩⟩
    · exact .inr ⟨same.mpr, fun _ => .inl longer⟩
  · by_cases chosen : Chosen alphabet first
    · have generated : ¬Chosen alphabet second := fun also => same (iff_of_true chosen also)
      exact .inr ⟨fun also => absurd also generated, fun alike => absurd alike.symm same⟩
    · exact .inl ⟨fun also => absurd also chosen, fun alike => absurd alike same⟩

/-- Codes that tie are equal. -/
theorem InOrder.antisymm (before : InOrder alphabet first second)
    (after : InOrder alphabet second first) : first = second := by
  have same : Chosen alphabet first ↔ Chosen alphabet second :=
    ⟨before.generated_first, after.generated_first⟩
  apply Bytes.ofText_injective
  rcases before.among same with shorter | ⟨length, bytes⟩
  · rcases after.among same.symm with longer | ⟨length, -⟩
    · exact absurd longer (Nat.lt_asymm shorter)
    · exact absurd length.symm (Nat.ne_of_lt shorter)
  · rcases after.among same.symm with shorter | ⟨-, alsoBytes⟩
    · exact absurd length.symm (Nat.ne_of_lt shorter)
    · exact List.le_antisymm bytes alsoBytes

/-! ### Sorted lists -/

theorem sort_pairwise (alphabet : String) (codes : List String) :
    (sort alphabet codes).Pairwise (InOrder alphabet) := by
  have trans (a b c : String) (before : le alphabet a b = true) (after : le alphabet b c = true) :
      le alphabet a c = true := by
    rw [le_iff_inOrder] at *
    exact before.trans after
  have total (a b : String) : (le alphabet a b || le alphabet b a) = true := by
    rw [Bool.or_eq_true, le_iff_inOrder, le_iff_inOrder]
    exact InOrder.total alphabet a b
  exact (List.pairwise_mergeSort trans total codes).imp le_iff_inOrder.mp

theorem sort_perm (alphabet : String) (codes : List String) : (sort alphabet codes).Perm codes :=
  List.mergeSort_perm codes _

/-- There is one way only to put codes in order. -/
theorem eq_sort_of_pairwise {codes ordered : List String} (same : ordered.Perm codes)
    (inOrder : ordered.Pairwise (InOrder alphabet)) : ordered = sort alphabet codes :=
  (same.trans (sort_perm alphabet codes).symm).eq_of_pairwise
    (fun _ _ _ _ before after => before.antisymm after) inOrder (sort_pairwise alphabet codes)

/-- Sorted codes are the same codes in order. Lists come out the same just if they hold the same
codes equally often, and a list that is sorted stays as it is. -/
theorem sort_outcome (alphabet : String) (codes : List String) :
    (sort alphabet codes).Perm codes ∧ (sort alphabet codes).Pairwise (InOrder alphabet) ∧
    (∀ others, sort alphabet others = sort alphabet codes ↔ others.Perm codes) ∧
    sort alphabet (sort alphabet codes) = sort alphabet codes := by
  have perm := sort_perm alphabet codes
  have settled {others : List String} (same : others.Perm codes) :
      sort alphabet others = sort alphabet codes :=
    eq_sort_of_pairwise ((sort_perm alphabet others).trans same) (sort_pairwise alphabet others)
  refine ⟨perm, sort_pairwise alphabet codes, fun others => ⟨fun same => ?_, settled⟩, settled perm⟩
  have back := (sort_perm alphabet others).symm
  rw [same] at back
  exact back.trans perm

end LinkArchive.Shortcode
