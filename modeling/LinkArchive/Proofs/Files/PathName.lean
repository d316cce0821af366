import LinkArchive.Files.PathName

/-!
# Names in directories

A path that is joined from a directory and a name has the parts of the directory and then the name:
`PathName.named_join`. The name is what is found at its end again: `PathName.fileName?_join`.
-/

namespace LinkArchive

namespace Text

variable {α : Type} [BEq α] [LawfulBEq α] {separator : α}

/-! ### Parts -/

omit [LawfulBEq α] in
theorem parts_ne_nil (list : List α) : parts separator list ≠ [] := by
  cases list with
  | nil => simp [parts]
  | cons x xs =>
    rw [parts]
    split
    · simp
    · split <;> simp

theorem parts_of_not_mem {list : List α} (undivided : separator ∉ list) :
    parts separator list = [list] := by
  induction list with
  | nil => rfl
  | cons x xs ih =>
    simp only [List.mem_cons, not_or] at undivided
    obtain ⟨other, rest⟩ := undivided
    rw [parts, ih rest]
    simp [Ne.symm other]

theorem parts_append (before after : List α) :
    parts separator (before ++ separator :: after) =
      parts separator before ++ parts separator after := by
  induction before with
  | nil =>
    rw [List.nil_append, parts, parts]
    cases found : parts separator after with
    | nil => exact absurd found (parts_ne_nil after)
    | cons first rest => simp
  | cons x xs ih =>
    rw [List.cons_append, parts, ih, parts]
    cases found : parts separator xs with
    | nil => exact absurd found (parts_ne_nil xs)
    | cons first rest => by_cases same : x == separator <;> simp [same]

theorem not_mem_of_mem_parts {list part : List α} (member : part ∈ parts separator list) :
    separator ∉ part := by
  induction list generalizing part with
  | nil =>
    obtain rfl : part = [] := by simpa [parts] using member
    simp
  | cons x xs ih =>
    rw [parts] at member
    cases found : parts separator xs with
    | nil => exact absurd found (parts_ne_nil xs)
    | cons first rest =>
      rw [found] at member ih
      dsimp only at member
      split at member
      · rcases List.mem_cons.mp member with rfl | member
        · simp
        · exact ih member
      · rename_i other
        rcases List.mem_cons.mp member with rfl | member
        · have differs : separator ≠ x := fun same => other (by simp [same])
          simp [differs, ih List.mem_cons_self]
        · exact ih (List.mem_cons_of_mem _ member)

/-! ### The last separator -/

theorem not_mem_of_splitAtLast? {list : List α} (none : splitAtLast? separator list = none) :
    separator ∉ list := by
  induction list with
  | nil => simp
  | cons x xs ih =>
    rw [splitAtLast?] at none
    split at none
    · cases none
    · rename_i absent
      split at none
      · cases none
      · rename_i other
        have differs : separator ≠ x := fun same => other (by simp [same])
        simp [differs, ih absent]

theorem splitAtLast?_of_not_mem {list : List α} (absent : separator ∉ list) :
    splitAtLast? separator list = none := by
  induction list with
  | nil => rfl
  | cons x xs ih =>
    simp only [List.mem_cons, not_or] at absent
    obtain ⟨other, rest⟩ := absent
    rw [splitAtLast?, ih rest]
    simp [Ne.symm other]

theorem splitAtLast?_append (before : List α) {after : List α} (last : separator ∉ after) :
    splitAtLast? separator (before ++ separator :: after) = some (before, after) := by
  induction before with
  | nil =>
    rw [List.nil_append, splitAtLast?, splitAtLast?_of_not_mem last]
    simp
  | cons x xs ih => rw [List.cons_append, splitAtLast?, ih]

theorem eq_of_splitAtLast? {list before after : List α}
    (found : splitAtLast? separator list = some (before, after)) :
    list = before ++ separator :: after ∧ separator ∉ after := by
  induction list generalizing before with
  | nil => cases found
  | cons x xs ih =>
    rw [splitAtLast?] at found
    split at found
    · rename_i earlier later split
      cases found
      obtain ⟨rfl, last⟩ := ih split
      exact ⟨rfl, last⟩
    · rename_i none
      split at found
      · rename_i same
        cases found
        rw [eq_of_beq same]
        exact ⟨rfl, not_mem_of_splitAtLast? none⟩
      · cases found

end Text

namespace PathName

/-- The parts of a path that are not empty. -/
def named (path : String) : List String :=
  ((Text.parts '/' path.toList).map String.ofList).filter (· != "")

theorem components_eq (path : String) : components path = (named path).filter (· != ".") := by
  rw [components, named, List.filter_filter]
  congr 1
  funext part
  exact Bool.and_comm _ _

variable {name : String}

theorem named_of_isPart (part : IsPart name) : named name = [name] := by
  rw [named, Text.parts_of_not_mem part.undivided]
  simp [part.nonempty]

theorem isAbsolute_of_isPart (part : IsPart name) : isAbsolute name = false := by
  have undivided := part.undivided
  unfold isAbsolute
  cases chars : name.toList with
  | nil => rfl
  | cons first rest =>
    rw [chars] at undivided
    simp only [List.mem_cons, not_or] at undivided
    simp [Ne.symm undivided.1]

theorem named_append (dir rest : String) :
    named (dir ++ "/" ++ rest) = named dir ++ named rest := by
  have chars : (dir ++ "/" ++ rest).toList = dir.toList ++ '/' :: rest.toList := by simp
  rw [named, chars, Text.parts_append, List.map_append, List.filter_append]
  rfl

/-- A joined path has one `/` before the name, whether or not the directory is written with one. -/
theorem join_eq_append (relative : isAbsolute name = false) {dir : String} (given : dir ≠ "") :
    ∃ front, join dir name = front ++ "/" ++ name ∧ named front = named dir := by
  have nonempty : dir.isEmpty = false := by simpa using given
  rw [join, relative, nonempty, if_neg (by simp)]
  split
  · rename_i slash
    obtain ⟨front, chars⟩ := List.getLast?_eq_some_iff.mp (eq_of_beq slash)
    have whole : dir = String.ofList front ++ "/" := String.toList_injective (by simpa using chars)
    refine ⟨String.ofList front, by rw [whole], ?_⟩
    have nothing : named "" = [] := rfl
    have ended := named_append (String.ofList front) ""
    rw [nothing, List.append_nil, String.append_empty, ← whole] at ended
    exact ended.symm
  · exact ⟨dir, rfl, rfl⟩

theorem named_join (part : IsPart name) {dir : String} (given : dir ≠ "") :
    named (join dir name) = named dir ++ [name] := by
  obtain ⟨front, joined, same⟩ := join_eq_append (isAbsolute_of_isPart part) given
  rw [joined, named_append, same, named_of_isPart part]

theorem isAbsolute_join (relative : isAbsolute name = false) (dir : String) :
    isAbsolute (join dir name) = isAbsolute dir := by
  unfold join
  rw [relative]
  by_cases given : dir = ""
  · subst given
    rw [if_pos (by simp), relative]
    rfl
  · have some : dir.toList ≠ [] := by simpa using given
    obtain ⟨first, rest, chars⟩ := List.exists_cons_of_ne_nil some
    rw [if_neg (by simpa using given)]
    split <;> simp [isAbsolute, chars]

theorem join_ne_empty (part : IsPart name) (dir : String) : join dir name ≠ "" := by
  intro empty
  have chars := congrArg String.toList empty
  unfold join at chars
  split at chars
  · exact part.nonempty (String.toList_injective chars)
  · split at chars <;> simp_all [part.nonempty]

theorem isPart_of_fileName? {path : String} (found : fileName? path = some name) :
    IsPart name := by
  unfold fileName? at found
  split at found
  · rename_i last ended
    split at found
    · cases found
    · rename_i notUp
      obtain rfl := Option.some.inj found
      have member := List.mem_of_getLast? ended
      rw [components, List.mem_filter, List.mem_map] at member
      obtain ⟨⟨part, inside, rfl⟩, kept⟩ := member
      simp only [Bool.and_eq_true, bne_iff_ne] at kept
      refine ⟨kept.1, kept.2, by simpa using notUp, ?_⟩
      rw [String.toList_ofList]
      exact Text.not_mem_of_mem_parts inside
  · cases found

/-- The name that is joined to a directory is found at the end of the path. -/
theorem fileName?_join (part : IsPart name) (dir : String) :
    fileName? (join dir name) = some name := by
  have ended : ∃ front, named (join dir name) = front ++ [name] := by
    by_cases given : dir = ""
    · refine ⟨[], ?_⟩
      rw [given, join, if_pos (by simp), named_of_isPart part]
      rfl
    · exact ⟨_, named_join part given⟩
  obtain ⟨front, ended⟩ := ended
  have last : (components (join dir name)).getLast? = some name := by
    rw [components_eq, ended, List.filter_append]
    simp [part.not_here]
  rw [fileName?, last]
  simp [part.not_up]

/-- A name has an extension without a dot if something stands before the dot. -/
theorem extension?_eq_some {ending : String} (last : '.' ∉ ending.toList) :
    extension? name = some ending ↔ ∃ stem, stem ≠ "" ∧ name = stem ++ "." ++ ending := by
  constructor
  · intro found
    unfold extension? at found
    split at found
    · rename_i first rest after split
      obtain ⟨chars, -⟩ := Text.eq_of_splitAtLast? split
      cases found
      refine ⟨String.ofList (first :: rest), by simp, String.toList_injective ?_⟩
      rw [chars]
      simp
    · cases found
  · rintro ⟨stem, given, rfl⟩
    have some : stem.toList ≠ [] := by simpa using given
    obtain ⟨first, rest, chars⟩ := List.exists_cons_of_ne_nil some
    have split : Text.splitAtLast? '.' (stem ++ "." ++ ending).toList =
        Option.some (first :: rest, ending.toList) := by
      rw [← Text.splitAtLast?_append (first :: rest) last]
      simp [chars]
    rw [extension?, split]
    simp

end PathName

end LinkArchive
