import LinkArchive.Proofs.Files.Tree

/-!
# Names that stay below a directory

A relative name whose parts never lead above the directory in which it is looked up leads to the
same in all trees that have the same below that directory: `FileTree.openFile_join_eq`.
-/

namespace LinkArchive

namespace FileTree

open PathName

variable {first second tree : FileTree} {dir name : String} {path top : List String}

/-! ### The same below a directory -/

/-- Where the names in a directory are looked up: what its path leads to, with or without a `/` at
its end. The empty path stands for the directory in which relative paths start. -/
def reach (tree : FileTree) (dir : String) : Except FaultKind (Place × Node) :=
  tree.walk (if isAbsolute dir then .outside else .inside []) (named dir)

/-- A path leads to the same directory in two trees, and they have the same in and below it. -/
structure SameBelow (dir : String) (first second : FileTree) : Prop where
  reach_eq : first.reach dir = second.reach dir
  node_eq : ∀ path node, first.reach dir = .ok (.inside path, node) →
    ∀ rest, first.node? (path ++ rest) = second.node? (path ++ rest)

/-! ### One more file -/

/-- A tree with one more file. -/
def withFile (tree : FileTree) (path : Path) (bytes : Bytes) : FileTree :=
  { tree with files := (path, bytes) :: tree.files }

/-- A file elsewhere makes no difference to what is at a path. -/
theorem node?_withFile {other : Path} (elsewhere : ¬path <+: other.names) (bytes : Bytes) :
    (tree.withFile other bytes).node? path = tree.node? path := by
  have differs : (other.names == path) = false := by
    rw [beq_eq_false_iff_ne]
    rintro rfl
    exact elsewhere List.prefix_rfl
  have apart : path.isPrefixOf other.names = false := by
    rwa [Bool.eq_false_iff, Ne, List.isPrefixOf_iff_prefix]
  have leads : (tree.withFile other bytes).paths.any path.isPrefixOf =
      tree.paths.any path.isPrefixOf := by
    simp only [withFile, paths, List.map_cons, List.cons_append, List.any_cons, apart,
      Bool.false_or]
  rw [node?, node?, leads]
  simp only [withFile, List.find?_cons, differs]

theorem reach_of_node? (start : tree.node? [] = some .directory)
    (there : tree.node? [dir] = some .directory) :
    tree.reach dir = .ok (.inside [dir], .directory) := by
  have inside : tree.below (.inside []) [dir] = some .directory := there
  have part := isPart_of_below inside
  rw [reach, isAbsolute_of_isPart part, named_of_isPart part, if_neg (by simp), walk_cons]
  simp only [at?, start]
  rw [enter_of_isPart part, List.nil_append, walk_nil]
  simp only [at?, there]

/-- A file beside a directory is not below it. -/
theorem sameBelow_withFile (start : tree.node? [] = some .directory)
    (there : tree.node? [dir] = some .directory) {other : Path} (given : other.names ≠ [])
    (beside : ¬[dir] <+: other.names) (bytes : Bytes) :
    SameBelow dir tree (tree.withFile other bytes) := by
  have elsewhere (rest : List String) : ¬[dir] ++ rest <+: other.names :=
    fun below => beside ((List.prefix_append _ _).trans below)
  have reached := reach_of_node? start there
  have startAlso : (tree.withFile other bytes).node? [] = some .directory := by
    unfold node? at start ⊢
    simpa [withFile, List.find?_cons, given] using start
  have thereAlso : (tree.withFile other bytes).node? [dir] = some .directory :=
    (node?_withFile (elsewhere []) bytes).trans there
  refine ⟨reached.trans (reach_of_node? startAlso thereAlso).symm, ?_⟩
  intro path node alsoReached rest
  rw [reached] at alsoReached
  cases alsoReached
  exact (node?_withFile (elsewhere rest) bytes).symm

/-! ### Names in a directory -/

theorem find_join_of_relative (relative : isAbsolute name = false) (given : join dir name ≠ "") :
    tree.find (join dir name) =
      (tree.reach dir).bind fun reached => tree.walk reached.1 (steps name) := by
  rw [find, if_neg (by simpa using given), isAbsolute_join relative, steps_join relative,
    walk_append, reach]

/-! ### Steps that stay below -/

/-- Whether steps from so many directories below a directory never lead above that. -/
def staysBelow : Nat → List String → Bool
  | _, [] => true
  | depth, part :: rest =>
    if part == "." then staysBelow depth rest
    else if part == ".." then 0 < depth && staysBelow (depth - 1) rest
    else staysBelow (depth + 1) rest

/-- Whether a name in a directory can only be that of something in or below the directory. -/
def isLocal (name : String) : Bool := !isAbsolute name && staysBelow 0 (steps name)

theorem isLocal_of_isPart (part : IsPart name) : isLocal name = true := by
  rw [isLocal, isAbsolute_of_isPart part, steps_of_isPart part]
  simp [staysBelow, part.not_here, part.not_up]

/-- A step that stays below a directory leads below it, from where the other steps stay there. -/
theorem exists_enter (top : List String) {below rest : List String} {part : String}
    (stays : staysBelow below.length (part :: rest) = true) :
    ∃ further : List String, Place.enter (.inside (top ++ below)) part = .inside (top ++ further) ∧
      staysBelow further.length rest = true := by
  rw [staysBelow] at stays
  split at stays
  · rename_i here
    obtain rfl := eq_of_beq here
    exact ⟨below, rfl, stays⟩
  split at stays
  · rename_i up
    obtain rfl := eq_of_beq up
    rw [Bool.and_eq_true, decide_eq_true_eq] at stays
    obtain ⟨deeper, stays⟩ := stays
    have some : below ≠ [] := List.ne_nil_of_length_pos deeper
    refine ⟨below.dropLast, ?_, by rwa [List.length_dropLast]⟩
    simp only [Place.enter, List.isEmpty_iff, List.append_eq_nil_iff, some, and_false, if_false,
      List.dropLast_append_of_ne_nil some]
  · rename_i notHere notUp
    refine ⟨below ++ [part], ?_, by rwa [List.length_append]⟩
    rw [enter_of_ne (by simpa using notHere) (by simpa using notUp), List.append_assoc]

theorem walk_congr (same : ∀ rest, first.node? (top ++ rest) = second.node? (top ++ rest))
    {below parts : List String} (stays : staysBelow below.length parts = true) :
    first.walk (.inside (top ++ below)) parts = second.walk (.inside (top ++ below)) parts := by
  have there (below : List String) :
      first.at? (.inside (top ++ below)) = second.at? (.inside (top ++ below)) := same below
  -- along the steps, with where they have led to so far below the directory
  induction parts generalizing below with
  | nil => rw [walk_nil, walk_nil, there]
  | cons part rest ih =>
    obtain ⟨further, entered, staysOn⟩ := exists_enter top stays
    rw [walk_cons, walk_cons, there, entered]
    rcases second.at? (.inside (top ++ below)) with _ | _ | _
    · rfl
    · rfl
    · exact ih staysOn

/-- Nothing is known of what lies outside of any tree. -/
theorem walk_outside (first second : FileTree) (parts : List String) :
    first.walk .outside parts = second.walk .outside parts := by
  induction parts with
  | nil => rfl
  | cons part rest ih => simp only [walk_cons, at?, ih]

theorem find_join_eq (same : SameBelow dir first second) (isLocal : isLocal name = true) :
    first.find (join dir name) = second.find (join dir name) := by
  rw [FileTree.isLocal, Bool.and_eq_true, Bool.not_eq_true'] at isLocal
  obtain ⟨relative, stays⟩ := isLocal
  by_cases given : join dir name = ""
  · rw [given]
    rfl
  · rw [find_join_of_relative relative given, find_join_of_relative relative given,
      ← same.reach_eq]
    cases reached : first.reach dir with
    | error kind => rfl
    | ok met =>
      obtain ⟨place, node⟩ := met
      cases place with
      | outside => exact walk_outside first second _
      | inside top =>
        show first.walk (.inside top) (steps name) = second.walk (.inside top) (steps name)
        rw [← List.append_nil top]
        exact walk_congr (same.node_eq top node reached) stays

/-- A local name leads to the same file in all trees that are the same below the directory. -/
theorem openFile_join_eq (same : SameBelow dir first second) (isLocal : isLocal name = true) :
    first.openFile (join dir name) = second.openFile (join dir name) := by
  rw [openFile, openFile, find_join_eq same isLocal]

end FileTree

end LinkArchive
