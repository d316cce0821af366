import LinkArchive.Files.Tree
import LinkArchive.Proofs.Files.PathName
import LinkArchive.Proofs.Text.Utf8

/-!
# What is in a directory

A directory that is found lists the names below it, each once and in the order of their bytes:
`FileTree.mem_children`, `FileTree.children_ordered`. What a name in it leads to is what is found
at the joined path: `FileTree.find_join`.
-/

namespace LinkArchive

namespace FileTree

open PathName

variable {tree : FileTree} {place last : Place} {node : Node} {dir name : String}

/-! ### Walks along a path -/

theorem walk_nil (tree : FileTree) (place : Place) :
    tree.walk place [] = match tree.at? place with
      | some node => .ok (place, node)
      | none => .error .notFound := by
  cases there : tree.at? place <;> simp only [walk, there]

theorem walk_cons (tree : FileTree) (place : Place) (part : String) (rest : List String) :
    tree.walk place (part :: rest) = match tree.at? place with
      | none => .error .notFound
      | some (.file _) => .error .notADirectory
      | some .directory =>
        match place with
        | .outside => if isOutsideStep part then tree.walk .outside rest else .error .notFound
        | .inside _ => tree.walk (place.enter part) rest := by
  rw [walk.eq_def]
  dsimp only
  rcases tree.at? place with _ | _ | _
  · rfl
  · rfl
  · cases place <;> rfl

theorem walk_append (tree : FileTree) (place : Place) (first rest : List String) :
    tree.walk place (first ++ rest) =
      (tree.walk place first).bind fun reached => tree.walk reached.1 rest := by
  induction first generalizing place with
  | nil =>
    rw [List.nil_append, walk_nil]
    cases there : tree.at? place with
    | some node => rfl
    | none => cases rest <;> simp only [walk_nil, walk_cons, there] <;> rfl
  | cons part first ih =>
    rw [List.cons_append, walk_cons, walk_cons]
    rcases tree.at? place with _ | _ | _
    · rfl
    · rfl
    · cases place with
      | inside path => exact ih _
      | outside =>
        dsimp only
        split
        · exact ih _
        · rfl

theorem at?_of_walk {parts : List String} (found : tree.walk place parts = .ok (last, node)) :
    tree.at? last = some node := by
  induction parts generalizing place with
  | nil =>
    rw [walk_nil] at found
    split at found
    · rename_i other met
      cases found
      exact met
    · cases found
  | cons part parts ih =>
    rw [walk_cons] at found
    split at found
    · cases found
    · cases found
    · split at found
      · split at found
        · exact ih found
        · cases found
      · exact ih found

theorem walk_here (there : tree.at? place = some .directory) :
    tree.walk place ["."] = .ok (place, .directory) := by
  have stays := walk_nil tree place
  rw [there] at stays
  rw [walk_cons, there]
  cases place with
  | inside path => exact stays
  | outside => exact stays

theorem steps_eq (path : String) :
    steps path = if ((Text.parts '/' path.toList).map String.ofList).getLast? == some "" then
      named path ++ ["."] else named path := rfl

/-- A path that ends with `/` leads to the same directory as without. -/
theorem walk_named {start : Place} (found : tree.walk start (steps dir) = .ok (place, .directory)) :
    tree.walk start (named dir) = .ok (place, .directory) := by
  rw [steps_eq] at found
  split at found
  · rw [walk_append] at found
    cases reached : tree.walk start (named dir) with
    | error kind =>
      rw [reached] at found
      cases found
    | ok met =>
      obtain ⟨between, node⟩ := met
      have there := at?_of_walk reached
      rw [reached] at found
      cases node with
      | file bytes =>
        simp only [Except.bind, walk_cons, there] at found
        cases found
      | directory =>
        have stays : tree.walk between ["."] = .ok (place, .directory) := found
        rw [walk_here there] at stays
        cases stays
        rfl
  · exact found

theorem steps_append (front rest : String) :
    steps (front ++ "/" ++ rest) = named front ++ steps rest := by
  have chars : (front ++ "/" ++ rest).toList = front.toList ++ '/' :: rest.toList := by simp
  have last : ((Text.parts '/' (front ++ "/" ++ rest).toList).map String.ofList).getLast? =
      ((Text.parts '/' rest.toList).map String.ofList).getLast? := by
    rw [chars, Text.parts_append, List.map_append, List.getLast?_append]
    cases last : ((Text.parts '/' rest.toList).map String.ofList).getLast? with
    | some part => rfl
    | none =>
      rw [List.getLast?_eq_none_iff, List.map_eq_nil_iff] at last
      exact absurd last (Text.parts_ne_nil rest.toList)
  rw [steps_eq, steps_eq, last, named_append]
  split
  · rw [List.append_assoc]
  · rfl

/-- The steps of a name in a directory are those to the directory and then those of the name. -/
theorem steps_join (relative : isAbsolute name = false) (dir : String) :
    steps (join dir name) = named dir ++ steps name := by
  by_cases given : dir = ""
  · subst given
    rw [join, if_pos (by simp)]
    rfl
  · obtain ⟨front, joined, same⟩ := join_eq_append relative given
    rw [joined, steps_append, same]

theorem steps_of_isPart (part : IsPart name) : steps name = [name] := by
  rw [steps_eq, Text.parts_of_not_mem part.undivided, named_of_isPart part]
  simp [part.nonempty]

theorem enter_of_ne (not_here : name ≠ ".") (not_up : name ≠ "..") (path : List String) :
    Place.enter (.inside path) name = .inside (path ++ [name]) := by
  unfold Place.enter
  split <;> simp_all

theorem enter_of_isPart (part : IsPart name) (path : List String) :
    Place.enter (.inside path) name = .inside (path ++ [name]) :=
  enter_of_ne part.not_here part.not_up path

theorem enter_outside (name : String) : Place.enter .outside name = .outside := by
  unfold Place.enter
  split <;> first | rfl | contradiction

/-! ### Names below a directory -/

/-- What some names lead to from a directory, one after the other. -/
def below (tree : FileTree) : Place → List String → Option Node
  | .inside path, names => tree.node? (path ++ names)
  | .outside, _ => none

theorem below_enter (part : IsPart name) (place : Place) (names : List String) :
    tree.below (place.enter name) names = tree.below place (name :: names) := by
  cases place with
  | inside path =>
    rw [enter_of_isPart part]
    simp [below]
  | outside => rw [enter_outside, below, below]

theorem find_join (part : IsPart name) (found : tree.find dir = .ok (place, .directory)) :
    tree.find (join dir name) = match tree.below place [name] with
      | some node => .ok (place.enter name, node)
      | none => .error .notFound := by
  have given : dir ≠ "" := by
    rintro rfl
    cases found
  have nonempty : dir.isEmpty = false := by simpa using given
  have joined : (join dir name).isEmpty = false := by simpa using join_ne_empty part dir
  rw [find, nonempty, if_neg (by simp)] at found
  have there := at?_of_walk found
  have relative := isAbsolute_of_isPart part
  rw [find, joined, if_neg (by simp), isAbsolute_join relative dir, steps_join relative,
    steps_of_isPart part, walk_append, walk_named found]
  show tree.walk place [name] = _
  rw [walk_cons, there]
  cases place with
  | inside path =>
    dsimp only
    rw [enter_of_isPart part, walk_nil]
    rfl
  | outside =>
    have leads : isOutsideStep name = false := by simp [isOutsideStep, part.not_here, part.not_up]
    dsimp only
    rw [leads]
    rfl

/-! ### What a directory lists -/

theorem isPart_of_mem_paths {path : List String} (present : path ∈ tree.paths)
    (inPath : name ∈ path) : IsPart name := by
  rw [paths, List.mem_append, List.mem_map, List.mem_map] at present
  rcases present with ⟨file, -, rfl⟩ | ⟨directory, -, rfl⟩
  · exact file.1.isPart name inPath
  · exact directory.isPart name inPath

/-- The names in a directory. -/
def children (tree : FileTree) : Place → List String
  | .inside directory =>
    (tree.paths.filterMap (childName? directory)).eraseDups.mergeSort nameLe
  | .outside => []

theorem names_of_find (found : tree.find dir = .ok (place, .directory)) :
    tree.names dir = .ok (tree.children place) := by
  rw [names, found]
  cases place <;> rfl

theorem childName?_eq_some {directory path : List String} :
    childName? directory path = some name ↔ directory ++ [name] <+: path := by
  unfold childName?
  by_cases within : directory <+: path
  · obtain ⟨rest, rfl⟩ := within
    rw [if_pos (by simp), List.drop_left, List.prefix_append_right_inj]
    cases rest with
    | nil => simp
    | cons first rest => simp [eq_comm]
  · rw [if_neg (by simpa using within)]
    constructor
    · nofun
    · intro longer
      exact absurd ((List.prefix_append _ _).trans longer) within

theorem isSome_node?_iff {path : List String} (nonempty : path ≠ []) :
    (tree.node? path).isSome ↔ ∃ longer ∈ tree.paths, path <+: longer := by
  have leads : (path.isEmpty || tree.paths.any path.isPrefixOf) = true ↔
      ∃ longer ∈ tree.paths, path <+: longer := by
    simp [nonempty]
  rw [← leads]
  unfold node?
  cases found : tree.files.find? (·.1.names == path) with
  | none => dsimp only; split <;> simp [*]
  | some file =>
    have there : file.1.names = path := by simpa using List.find?_some found
    have present : path ∈ tree.paths :=
      List.mem_append_left _ (List.mem_map.mpr ⟨file, List.mem_of_find?_eq_some found, there⟩)
    simp only [Option.isSome_some, true_iff, leads]
    exact ⟨path, present, List.prefix_rfl⟩

theorem mem_children : name ∈ tree.children place ↔ (tree.below place [name]).isSome := by
  cases place with
  | outside => simp [children, below]
  | inside directory =>
    rw [children, List.mem_mergeSort, List.mem_eraseDups, List.mem_filterMap, below,
      isSome_node?_iff (by simp)]
    simp only [childName?_eq_some]

theorem isPart_of_mem_children (listed : name ∈ tree.children place) : IsPart name := by
  cases place with
  | outside => cases listed
  | inside directory =>
    rw [mem_children, below, isSome_node?_iff (by simp)] at listed
    obtain ⟨path, present, leads⟩ := listed
    exact isPart_of_mem_paths present (leads.subset (by simp))

theorem isPart_of_below (leads : tree.below place [name] = some node) : IsPart name := by
  have listed : name ∈ tree.children place := mem_children.mpr (by simp [leads])
  exact isPart_of_mem_children listed

/-- One name before another in the order of their bytes. -/
def NameLt (first second : String) : Prop := Bytes.ofText first < Bytes.ofText second

theorem nodup_eraseDups (list : List String) : list.eraseDups.Nodup := by
  induction length : list.length using Nat.strongRecOn generalizing list with
  | ind count ih =>
    cases list with
    | nil => simp
    | cons first rest =>
      have shorter : (rest.filter fun other => !other == first).length < count := by
        rw [← length, List.length_cons]
        exact Nat.lt_succ_of_le (List.length_filter_le _ _)
      rw [List.eraseDups_cons, List.nodup_cons, List.mem_eraseDups]
      exact ⟨by simp, ih _ shorter _ rfl⟩

theorem nameLt_of_nameLe {first second : String} (le : nameLe first second = true)
    (differs : first ≠ second) : NameLt first second := by
  have bytes : Bytes.ofText first ≤ Bytes.ofText second := of_decide_eq_true le
  apply Std.lt_of_le_of_ne bytes
  exact fun same => differs (Bytes.ofText_injective same)

/-- A directory lists each name once, in the order of their bytes. -/
theorem children_ordered (tree : FileTree) (place : Place) :
    (tree.children place).Pairwise NameLt := by
  cases place with
  | outside => exact .nil
  | inside directory =>
    have trans (a b c : String) (first : nameLe a b = true) (second : nameLe b c = true) :
        nameLe a c = true := by
      simp only [nameLe, decide_eq_true_eq] at *
      exact List.le_trans first second
    have total (a b : String) : (nameLe a b || nameLe b a) = true := by
      simp only [nameLe, Bool.or_eq_true, decide_eq_true_eq]
      exact List.le_total _ _
    have sorted := List.pairwise_mergeSort trans total
      (tree.paths.filterMap (childName? directory)).eraseDups
    have distinct : (tree.children (.inside directory)).Nodup :=
      (List.mergeSort_perm _ _).nodup_iff.mpr (nodup_eraseDups _)
    exact (sorted.and distinct).imp fun both => nameLt_of_nameLe both.1 both.2

end FileTree

end LinkArchive
