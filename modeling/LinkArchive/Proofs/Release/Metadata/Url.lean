import LinkArchive.Release.Metadata
import LinkArchive.Proofs.Text.Pieces

/-!
# URLs from a template

A template is cut at all of its placeholders, and the URL of a shortcode is these pieces with the
code between them: `ReleaseMetadata.urlFor_outcome`. So no two codes have the same URL if there is
a placeholder in the template.
-/

namespace LinkArchive.ReleaseMetadata

open Text

theorem placeholder_eq : placeholder = '\x7b' :: "shortcode\x7d".toList := by
  decide +kernel

theorem beginsAlone_placeholder : BeginsAlone placeholder := by
  rw [placeholder_eq]
  show '\x7b' ∉ "shortcode\x7d".toList
  decide +kernel

theorem placeholder_ne_nil : placeholder ≠ [] := by
  rw [placeholder_eq]
  exact List.cons_ne_nil _ _

theorem drop_of_placeholder {c : Char} {rest behind : List Char}
    (whole : placeholder ++ behind = c :: rest) : rest.drop (placeholder.length - 1) = behind := by
  rw [placeholder_eq] at whole ⊢
  obtain ⟨-, rfl⟩ := List.cons.inj whole
  exact List.drop_left

/-- A template has pieces, and every code is put between these. -/
theorem exists_cutAt (template : List Char) : ∃ pieces, CutAt placeholder template pieces ∧
    ∀ code : List Char, substitute code template = code.intercalate pieces := by
  induction template using substitute.induct with
  | case1 =>
    refine ⟨[[]], cutAt_nil placeholder_ne_nil, fun code => ?_⟩
    rw [substitute, List.intercalate_singleton]
  | case2 c rest here ih =>
    obtain ⟨pieces, cut, replaced⟩ := ih
    obtain ⟨behind, whole⟩ := List.isPrefixOf_iff_prefix.mp here
    have cut_found := cut.found placeholder_ne_nil
    rw [drop_of_placeholder whole, whole] at cut_found
    refine ⟨[] :: pieces, cut_found, fun code => ?_⟩
    rw [substitute, if_pos here, replaced, intercalate_cons code [] cut.nonempty,
      List.nil_append]
  | case3 c rest elsewhere ih =>
    obtain ⟨pieces, cut, replaced⟩ := ih
    obtain ⟨piece, others, rfl⟩ := List.exists_cons_of_ne_nil cut.nonempty
    have cut_passed := cut.passed fun here => elsewhere (List.isPrefixOf_iff_prefix.mpr here)
    refine ⟨(c :: piece) :: others, cut_passed, fun code => ?_⟩
    rw [substitute, if_neg elsewhere, replaced, intercalate_eq_flatMap, intercalate_eq_flatMap,
      List.cons_append]

/-- The template of a document has just one list of pieces between placeholders. The placeholders
stand between these pieces and nowhere else, and the URL of a code has the code there instead,
whatever is in the code. Two codes never have the same URL if there is a placeholder at all. -/
theorem urlFor_outcome (m : ReleaseMetadata) : ∃ pieces : List (List Char),
    (∀ others, CutAt placeholder m.urlTemplate.toList others ↔ others = pieces) ∧
    (∀ before after, m.urlTemplate.toList = before ++ (placeholder ++ after) ↔
      ∃ front back, front ≠ [] ∧ back ≠ [] ∧ pieces = front ++ back ∧
        placeholder.intercalate front = before ∧ placeholder.intercalate back = after) ∧
    (∀ code, (m.urlFor code).toList = code.toList.intercalate pieces) ∧
    (Function.Injective m.urlFor ↔ placeholder <:+: m.urlTemplate.toList) := by
  obtain ⟨pieces, cut, replaced⟩ := exists_cutAt m.urlTemplate.toList
  have url (code : String) : (m.urlFor code).toList = code.toList.intercalate pieces := by
    rw [urlFor, String.toList_ofList, replaced]
  refine ⟨pieces, fun others => ⟨fun alsoCut => ?_, ?_⟩, fun before after => ?_, url, ?_, ?_⟩
  · exact (cut.eq_of_cutAt beginsAlone_placeholder alsoCut).symm
  · rintro rfl
    exact cut
  · exact cut.occurs_iff beginsAlone_placeholder
  · intro injective
    refine Classical.byContradiction fun absent => ?_
    have same : m.urlFor "a" = m.urlFor "b" := by
      apply String.toList_injective
      rw [url, url, cut.eq_singleton absent, List.intercalate_singleton, List.intercalate_singleton]
    exact absurd (injective same) (by decide)
  · intro occurs first second same
    apply String.toList_injective
    apply eq_of_intercalate_eq (cut.two_le_length occurs)
    rw [← url, ← url, same]

end LinkArchive.ReleaseMetadata
