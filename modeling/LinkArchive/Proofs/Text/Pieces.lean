import LinkArchive.Text.Cut

/-!
# Pieces between occurrences

A list is cut at all occurrences of a needle, and the pieces are what stands between these. Of a
needle that begins with an element which it has nowhere else no two occurrences overlap, so the
pieces are known from the list: `Text.CutAt.eq_of_cutAt`, `Text.CutAt.occurs_iff`.
-/

namespace LinkArchive.Text

variable {α : Type} {needle list rest before after piece : List α} {pieces : List (List α)}

/-- The pieces of a list that has the needle between any two of them and nowhere else. -/
structure CutAt (needle list : List α) (pieces : List (List α)) : Prop where
  nonempty : pieces ≠ []
  joined : needle.intercalate pieces = list
  free : ∀ piece ∈ pieces, ¬needle <:+: piece

/-! ### Joined lists -/

theorem intercalate_eq_flatMap (joint piece : List α) (pieces : List (List α)) :
    joint.intercalate (piece :: pieces) = piece ++ pieces.flatMap (joint ++ ·) := by
  induction pieces generalizing piece with
  | nil => rw [List.intercalate_singleton, List.flatMap_nil, List.append_nil]
  | cons next pieces ih =>
    rw [List.intercalate_cons_cons, ih, List.flatMap_cons]
    simp only [List.append_assoc]

theorem intercalate_cons (joint piece : List α) (more : pieces ≠ []) :
    joint.intercalate (piece :: pieces) = piece ++ (joint ++ joint.intercalate pieces) := by
  obtain ⟨next, others, rfl⟩ := List.exists_cons_of_ne_nil more
  rw [List.intercalate_cons_cons, List.append_assoc]

theorem intercalate_append (joint : List α) {front back : List (List α)} (some_front : front ≠ [])
    (some_back : back ≠ []) :
    joint.intercalate (front ++ back) =
      joint.intercalate front ++ (joint ++ joint.intercalate back) := by
  obtain ⟨piece, front, rfl⟩ := List.exists_cons_of_ne_nil some_front
  obtain ⟨next, back, rfl⟩ := List.exists_cons_of_ne_nil some_back
  rw [List.cons_append, intercalate_eq_flatMap, intercalate_eq_flatMap, intercalate_eq_flatMap,
    List.flatMap_append, List.flatMap_cons]
  simp only [List.append_assoc]

theorem length_intercalate_cons (joint piece : List α) (pieces : List (List α)) :
    (joint.intercalate (piece :: pieces)).length =
      (piece :: pieces).flatten.length + pieces.length * joint.length := by
  induction pieces generalizing piece with
  | nil => simp [List.intercalate_singleton]
  | cons next pieces ih =>
    rw [List.intercalate_cons_cons, List.length_append, List.length_append, ih]
    simp only [List.flatten_cons, List.length_append, List.length_cons, Nat.succ_mul]
    omega

/-- What joins two or more pieces is known from the whole. -/
theorem eq_of_intercalate_eq {first second : List α} (two : 2 ≤ pieces.length)
    (same : first.intercalate pieces = second.intercalate pieces) : first = second := by
  match pieces, two with
  | piece :: next :: others, _ =>
    have lengths := congrArg List.length same
    simp only [length_intercalate_cons, Nat.add_left_cancel_iff] at lengths
    have length : first.length = second.length :=
      Nat.eq_of_mul_eq_mul_left (Nat.succ_pos others.length) lengths
    rw [List.intercalate_cons_cons, List.intercalate_cons_cons, List.append_assoc,
      List.append_assoc, List.append_cancel_left_eq] at same
    exact (List.append_inj same length).1

/-! ### Cutting -/

theorem cutAt_nil (given : needle ≠ []) : CutAt needle [] [[]] where
  nonempty := List.cons_ne_nil _ _
  joined := List.intercalate_singleton
  free := by simpa using given

theorem CutAt.found (cut : CutAt needle rest pieces) (given : needle ≠ []) :
    CutAt needle (needle ++ rest) ([] :: pieces) where
  nonempty := List.cons_ne_nil _ _
  joined := by rw [intercalate_cons needle [] cut.nonempty, cut.joined, List.nil_append]
  free := List.forall_mem_cons.mpr ⟨by simpa using given, cut.free⟩

theorem CutAt.passed {x : α} (cut : CutAt needle rest (piece :: pieces))
    (elsewhere : ¬needle <+: x :: rest) : CutAt needle (x :: rest) ((x :: piece) :: pieces) where
  nonempty := List.cons_ne_nil _ _
  joined := by
    rw [← cut.joined, intercalate_eq_flatMap, intercalate_eq_flatMap, List.cons_append]
  free := by
    obtain ⟨first, others⟩ := List.forall_mem_cons.mp cut.free
    refine List.forall_mem_cons.mpr ⟨?_, others⟩
    rw [List.infix_cons_iff]
    rintro (here | later)
    · have longer : x :: piece <+: x :: rest := by
        rw [← cut.joined, intercalate_eq_flatMap, List.prefix_cons_inj]
        exact List.prefix_append _ _
      exact elsewhere (here.trans longer)
    · exact first later

/-! ### Occurrences -/

/-- A list that begins with an element which it has nowhere else. -/
def BeginsAlone : List α → Prop
  | [] => False
  | first :: rest => first ∉ rest

/-- No part behind the beginning of such a list is the beginning of another occurrence. -/
theorem eq_nil_of_overlap {front back : List α} (alone : BeginsAlone (front ++ back))
    (some_front : front ≠ []) (again : (front ++ back) ++ rest = back ++ after) : back = [] := by
  obtain ⟨first, front, rfl⟩ := List.exists_cons_of_ne_nil some_front
  cases back with
  | nil => rfl
  | cons x back =>
    obtain ⟨rfl, -⟩ := List.cons.inj again
    exact absurd (List.mem_append_right front List.mem_cons_self) alone

/-- An occurrence of the needle behind a piece without it is the one that ends the piece, or it
stands behind that. -/
theorem occurs_behind (alone : BeginsAlone needle) (free : ¬needle <:+: piece)
    (same : before ++ (needle ++ after) = piece ++ (needle ++ rest)) :
    (before = piece ∧ after = rest) ∨
      ∃ between, before = piece ++ (needle ++ between) ∧ rest = between ++ (needle ++ after) := by
  by_cases here : before = piece
  · subst here
    rw [List.append_cancel_left_eq, List.append_cancel_left_eq] at same
    exact .inl ⟨rfl, same⟩
  rcases List.append_eq_append_iff.mp same with ⟨front, rfl, tail⟩ | ⟨front, rfl, tail⟩
  -- one that begins inside the piece would have to end there too
  · have some_front : front ≠ [] := by
      rintro rfl
      exact here (List.append_nil before).symm
    rcases List.append_eq_append_iff.mp tail with ⟨inside, rfl, -⟩ | ⟨back, rfl, again⟩
    · exact absurd ⟨before, inside, List.append_assoc ..⟩ free
    · obtain rfl := eq_nil_of_overlap alone some_front again
      rw [List.append_nil] at free
      exact absurd (List.suffix_append before front).isInfix free
  · have some_front : front ≠ [] := by
      rintro rfl
      exact here (List.append_nil piece)
    right
    rcases List.append_eq_append_iff.mp tail with ⟨between, rfl, whole⟩ | ⟨back, rfl, again⟩
    · exact ⟨between, rfl, whole⟩
    · obtain rfl := eq_nil_of_overlap alone some_front again
      exact ⟨[], by simp only [List.append_nil], again.symm⟩

theorem CutAt.singleton (cut : CutAt needle list [piece]) : list = piece ∧ ¬needle <:+: list := by
  have joined := cut.joined
  rw [List.intercalate_singleton] at joined
  subst joined
  exact ⟨rfl, cut.free _ List.mem_cons_self⟩

theorem CutAt.tail (cut : CutAt needle list (piece :: pieces)) (more : pieces ≠ []) :
    list = piece ++ (needle ++ needle.intercalate pieces) ∧
      CutAt needle (needle.intercalate pieces) pieces := by
  obtain ⟨-, others⟩ := List.forall_mem_cons.mp cut.free
  exact ⟨by rw [← cut.joined, intercalate_cons needle piece more], more, rfl, others⟩

/-- The needle occurs in a list just between its pieces. -/
theorem CutAt.occurs_iff (alone : BeginsAlone needle) (cut : CutAt needle list pieces) :
    list = before ++ (needle ++ after) ↔ ∃ front back, front ≠ [] ∧ back ≠ [] ∧
      pieces = front ++ back ∧ needle.intercalate front = before ∧
        needle.intercalate back = after := by
  constructor
  · intro occurs
    -- what is found ends the first piece, or stands behind it and between later ones
    induction pieces generalizing list before with
    | nil => exact absurd rfl cut.nonempty
    | cons piece pieces ih =>
      by_cases last : pieces = []
      · subst last
        obtain ⟨-, absent⟩ := cut.singleton
        exact absurd ⟨before, after, by rw [occurs, List.append_assoc]⟩ absent
      · obtain ⟨whole, others⟩ := cut.tail last
        have free := cut.free piece List.mem_cons_self
        rcases occurs_behind alone free (occurs.symm.trans whole) with
          ⟨rfl, rfl⟩ | ⟨between, rfl, behind⟩
        · exact ⟨[before], pieces, by simp, last, rfl, List.intercalate_singleton, rfl⟩
        · obtain ⟨front, back, some_front, some_back, rfl, rfl, joined⟩ := ih others behind
          exact ⟨piece :: front, back, by simp, some_back, rfl,
            intercalate_cons needle piece some_front, joined⟩
  · rintro ⟨front, back, some_front, some_back, rfl, rfl, rfl⟩
    rw [← cut.joined, intercalate_append needle some_front some_back]

theorem CutAt.eq_singleton (cut : CutAt needle list pieces) (absent : ¬needle <:+: list) :
    pieces = [list] := by
  obtain ⟨piece, others, rfl⟩ := List.exists_cons_of_ne_nil cut.nonempty
  by_cases last : others = []
  · subst last
    rw [cut.singleton.1]
  · obtain ⟨whole, -⟩ := cut.tail last
    exact absurd ⟨piece, _, by rw [whole, List.append_assoc]⟩ absent

theorem CutAt.two_le_length (cut : CutAt needle list pieces) (occurs : needle <:+: list) :
    2 ≤ pieces.length := by
  obtain ⟨piece, others, rfl⟩ := List.exists_cons_of_ne_nil cut.nonempty
  cases others with
  | nil => exact absurd occurs cut.singleton.2
  | cons next others => simp

/-- A list is cut in one way only. -/
theorem CutAt.eq_of_cutAt {others : List (List α)} (alone : BeginsAlone needle)
    (cut : CutAt needle list pieces) (alsoCut : CutAt needle list others) : pieces = others := by
  induction pieces generalizing list others with
  | nil => exact absurd rfl cut.nonempty
  | cons piece pieces ih =>
    by_cases last : pieces = []
    · subst last
      obtain ⟨rfl, absent⟩ := cut.singleton
      exact (alsoCut.eq_singleton absent).symm
    · obtain ⟨whole, rest⟩ := cut.tail last
      obtain ⟨front, back, some_front, some_back, rfl, joined, behind⟩ :=
        (alsoCut.occurs_iff alone).mp whole
      obtain ⟨free_front, free_back⟩ := List.forall_mem_append.mp alsoCut.free
      have first : CutAt needle piece front := ⟨some_front, joined, free_front⟩
      rw [first.eq_singleton (cut.free piece List.mem_cons_self),
        ih rest ⟨some_back, behind, free_back⟩]
      rfl

end LinkArchive.Text
