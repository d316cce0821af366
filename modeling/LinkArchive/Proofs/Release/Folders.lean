import LinkArchive.Proofs.Files.Tree
import LinkArchive.Proofs.Release.Stopping
import Mathlib.Data.List.Sort

/-!
# Collections of releases

A walk through a collection is a walk through each of its containers in turn, and these are the zip
files in its subfolders: `Folder.inTurn_walkReleases`. `Handled.InTurn` says what doing things in
turn comes to, and which of them are begun.
-/

namespace LinkArchive

open PathName

/-! ### One after the other -/

namespace Handled

variable {σ α β : Type} {step : α → σ → Handled σ β}

/-- What comes of things that are done in turn up to the first failure, and which are begun. -/
inductive InTurn (step : α → σ → Handled σ β) :
    List α → σ → List α → Handled σ (List β) → Prop where
  | done (state : σ) : InTurn step [] state [] ⟨.ok [], [], state⟩
  | stopped {value : α} {state : σ} {error : ReleaseError}
    (failed : (step value state).result = .error error) (rest : List α) :
    InTurn step (value :: rest) state [value]
      ⟨.error error, (step value state).events, (step value state).state⟩
  | next {value : α} {rest begun : List α} {state : σ} {result : β} {others : Handled σ (List β)}
    (went : (step value state).result = .ok result)
    (behind : InTurn step rest (step value state).state begun others) :
    InTurn step (value :: rest) state (value :: begun)
      ⟨others.result.map (result :: ·), (step value state).events ++ others.events, others.state⟩

theorem exists_inTurn (step : α → σ → Handled σ β) (values : List α) (state : σ) :
    ∃ begun, InTurn step values state begun (each step values state) := by
  induction values generalizing state with
  | nil => exact ⟨[], .done state⟩
  | cons value rest ih =>
    rw [each_cons_eq]
    cases went : (step value state).result with
    | error error => exact ⟨[value], .stopped went rest⟩
    | ok result =>
      obtain ⟨begun, behind⟩ := ih (step value state).state
      exact ⟨value :: begun, .next went behind⟩

theorem InTurn.eq_each {values begun : List α} {state : σ} {handled : Handled σ (List β)}
    (turn : InTurn step values state begun handled) : handled = each step values state := by
  induction turn with
  | done state => rfl
  | stopped failed rest => rw [each_cons_eq, failed]
  | next went behind ih => rw [each_cons_eq, went, ih]

/-- Only what is begun has a say in what comes of it. -/
theorem InTurn.congr {values begun : List α} {state : σ} {handled : Handled σ (List β)}
    (turn : InTurn step values state begun handled) {other : α → σ → Handled σ β}
    (same : ∀ value ∈ begun, other value = step value) :
    InTurn other values state begun handled := by
  induction turn with
  | done state => exact .done state
  | @stopped value state error failed rest =>
    have first := same value List.mem_cons_self
    rw [← first] at failed ⊢
    exact .stopped failed rest
  | @next value rest begun state result others went behind ih =>
    have first := same value List.mem_cons_self
    have later := ih fun value member => same value (List.mem_cons_of_mem _ member)
    rw [← first] at went later ⊢
    exact .next went later

theorem InTurn.begun_prefix {values begun : List α} {state : σ} {handled : Handled σ (List β)}
    (turn : InTurn step values state begun handled) : begun <+: values := by
  induction turn with
  | done state => exact List.prefix_rfl
  | stopped failed rest => simp
  | next went behind ih => simpa using ih

end Handled

/-! ### Containers -/

namespace Folder

open FileTree (Place NameLt)

variable {tree : FileTree} {place : Place} {dir root folder name : String}

/-- A zip file of some name in a subfolder. -/
structure HasContainer (tree : FileTree) (place : Place) (folder name : String) : Prop where
  inFolder : tree.below place [folder] = some .directory
  isFile : ∃ bytes, tree.below place [folder, name] = some (.file bytes)
  isZip : ∃ stem, stem ≠ "" ∧ name = stem ++ ".zip"

/-- One container before another: in the order of the folders, and of the names in one. -/
def Precedes (first second : String × String) : Prop :=
  NameLt first.1 second.1 ∨ first.1 = second.1 ∧ NameLt first.2 second.2

def containerPath (root : String) (container : String × String) : String :=
  join (join root container.1) container.2

theorem isDirectory_join (part : IsPart name) (found : tree.find dir = .ok (place, .directory)) :
    tree.isDirectory (join dir name) = true ↔ tree.below place [name] = some .directory := by
  rw [FileTree.isDirectory, FileTree.find_join part found]
  rcases tree.below place [name] with _ | _ | _ <;> simp

theorem isContainer_join (part : IsPart name) (found : tree.find dir = .ok (place, .directory)) :
    isContainer tree (join dir name) = true ↔
      (∃ bytes, tree.below place [name] = some (.file bytes)) ∧
        ∃ stem, stem ≠ "" ∧ name = stem ++ ".zip" := by
  have isFile : tree.isFile (join dir name) = true ↔
      ∃ bytes, tree.below place [name] = some (.file bytes) := by
    rw [FileTree.isFile, FileTree.find_join part found]
    rcases tree.below place [name] with _ | _ | _ <;> simp
  have isZip : extension? name = some "zip" ↔ ∃ stem, stem ≠ "" ∧ name = stem ++ ".zip" := by
    have ending (stem : String) : stem ++ "." ++ "zip" = stem ++ ".zip" := String.append_assoc
    simp only [extension?_eq_some (show '.' ∉ "zip".toList by decide), ending]
  rw [isContainer, Bool.and_eq_true, isFile, fileName?_join part, Option.bind_some, beq_iff_eq,
    containerExtension, isZip]

theorem pathsIn_of_find (found : tree.find dir = .ok (place, .directory)) (keep : String → Bool) :
    pathsIn tree keep dir =
      .ok (((tree.children place).filter fun name => keep (join dir name)).map (join dir)) := by
  rw [pathsIn, FileTree.names_of_find found]
  exact congrArg Except.ok List.filter_map

/-- The containers in the folders of a collection, in the order in which they are walked through. -/
def containers (tree : FileTree) (place : Place) (root : String) : List (String × String) :=
  ((tree.children place).filter fun folder => tree.isDirectory (join root folder)).flatMap
    fun folder => ((tree.children (place.enter folder)).filter fun name =>
      isContainer tree (containerPath root (folder, name))).map (folder, ·)

theorem find_folder (found : tree.find root = .ok (place, .directory))
    (inFolder : tree.below place [folder] = some .directory) :
    tree.find (join root folder) = .ok (place.enter folder, .directory) := by
  rw [FileTree.find_join (FileTree.isPart_of_below inFolder) found, inFolder]

theorem mem_containers (found : tree.find root = .ok (place, .directory)) :
    (folder, name) ∈ containers tree place root ↔ HasContainer tree place folder name := by
  rw [containers, List.mem_flatMap]
  constructor
  · rintro ⟨folder, kept, member⟩
    obtain ⟨listed, isDirectory⟩ := List.mem_filter.mp kept
    obtain ⟨name, kept, same⟩ := List.mem_map.mp member
    obtain ⟨inside, isContainer⟩ := List.mem_filter.mp kept
    cases same
    have part := FileTree.isPart_of_mem_children listed
    have within := FileTree.isPart_of_mem_children inside
    have inFolder := (isDirectory_join part found).mp isDirectory
    have reached := find_folder found inFolder
    obtain ⟨isFile, isZip⟩ := (isContainer_join within reached).mp isContainer
    rw [FileTree.below_enter part] at isFile
    exact ⟨inFolder, isFile, isZip⟩
  · rintro ⟨inFolder, ⟨bytes, isFile⟩, isZip⟩
    have part := FileTree.isPart_of_below inFolder
    have reached := find_folder found inFolder
    rw [← FileTree.below_enter part] at isFile
    have within := FileTree.isPart_of_below isFile
    have isDirectory := (isDirectory_join part found).mpr inFolder
    have isContainer := (isContainer_join within reached).mpr ⟨⟨bytes, isFile⟩, isZip⟩
    have listed : folder ∈ tree.children place := FileTree.mem_children.mpr (by simp [inFolder])
    have inside : name ∈ tree.children (place.enter folder) :=
      FileTree.mem_children.mpr (by simp [isFile])
    exact ⟨folder, List.mem_filter.mpr ⟨listed, isDirectory⟩,
      List.mem_map.mpr ⟨name, List.mem_filter.mpr ⟨inside, isContainer⟩, rfl⟩⟩

theorem containers_ordered (tree : FileTree) (place : Place) (root : String) :
    (containers tree place root).Pairwise Precedes := by
  rw [containers, List.pairwise_flatMap]
  constructor
  · intro folder _
    have names := (tree.children_ordered (place.enter folder)).filter fun name =>
      isContainer tree (containerPath root (folder, name))
    exact List.pairwise_map.mpr (names.imp fun before => .inr ⟨rfl, before⟩)
  · refine ((tree.children_ordered place).filter _).imp ?_
    intro first second before container inFirst other inSecond
    obtain ⟨name, -, rfl⟩ := List.mem_map.mp inFirst
    obtain ⟨otherName, -, rfl⟩ := List.mem_map.mp inSecond
    exact .inl before

variable {σ : Type} {handler : Handler σ} {options : WalkOptions}

/-- The walk through one container of a collection. -/
def walkContainer (tree : FileTree) (options : WalkOptions) (handler : Handler σ) (root : String)
    (container : String × String) : σ → Handled σ ReleaseReport :=
  walkRelease tree options handler (containerPath root container)

theorem walkReleases_eq_each (found : tree.find root = .ok (place, .directory)) (state : σ) :
    walkReleases tree options handler root state =
      Handled.each (walkContainer tree options handler root) (containers tree place root)
        state := by
  rw [walkReleases, pathsIn_of_find found, Handled.andThen_ofResult]
  simp only [Handled.each_map]
  apply Handled.each_flatMap
  intro folder kept state
  obtain ⟨listed, isDirectory⟩ := List.mem_filter.mp kept
  have part := FileTree.isPart_of_mem_children listed
  have reached := find_folder found ((isDirectory_join part found).mp isDirectory)
  rw [walkContainers_of_paths (pathsIn_of_find reached (isContainer tree)), Handled.each_map,
    Handled.each_map]
  rfl

theorem hasContent_of_hasContainer (found : tree.find root = .ok (place, .directory))
    (has : HasContainer tree place folder name) {bytes : Bytes}
    (isFile : tree.below place [folder, name] = some (.file bytes)) :
    HasContent tree (containerPath root (folder, name)) bytes := by
  have part := FileTree.isPart_of_below has.inFolder
  have reached := find_folder found has.inFolder
  rw [← FileTree.below_enter part] at isFile
  have within := FileTree.isPart_of_below isFile
  have opened : tree.openFile (containerPath root (folder, name)) = .ok [.chunk bytes] := by
    rw [FileTree.openFile, containerPath, FileTree.find_join within reached, isFile]
  refine ⟨_, [], opened, ?_⟩
  cases bytes with
  | nil => rfl
  | cons byte bytes => simp [Source.readToEnd]

theorem precedes_asymm {first second : String × String} (before : Precedes first second) :
    ¬Precedes second first := by
  have asymm {name other : String} (lt : NameLt name other) : ¬NameLt other name :=
    List.lt_asymm lt
  rintro (after | ⟨same, after⟩)
  · rcases before with before | ⟨same, -⟩
    · exact asymm before after
    · rw [same] at after
      exact asymm after after
  · rcases before with before | ⟨-, before⟩
    · rw [same] at before
      exact asymm before before
    · exact asymm before after

instance : Std.Asymm Precedes where
  asymm _ _ := precedes_asymm

/-- A walk through a collection is a walk through each container in turn: through every zip file in
a subfolder, and through nothing else, in the order of the names. The first that fails is the last
that is opened, so it makes no difference what the others hold. -/
theorem inTurn_walkReleases (found : tree.find root = .ok (place, .directory))
    (options : WalkOptions) (handler : Handler σ) (state : σ) :
    ∃ containers opened,
      containers.Pairwise Precedes ∧
      (∀ folder name, (folder, name) ∈ containers ↔ HasContainer tree place folder name) ∧
      Handled.InTurn (walkContainer tree options handler root) containers state opened
        (walkReleases tree options handler root state) ∧
      ∀ other : FileTree, other.find root = .ok (place, .directory) →
        (∀ folder name,
          HasContainer other place folder name ↔ HasContainer tree place folder name) →
        (∀ container ∈ opened, other.below place [container.1, container.2] =
          tree.below place [container.1, container.2]) →
        walkReleases other options handler root state =
          walkReleases tree options handler root state := by
  let step := walkContainer tree options handler root
  obtain ⟨opened, turn⟩ := Handled.exists_inTurn step (containers tree place root) state
  refine ⟨containers tree place root, opened, containers_ordered tree place root,
    fun _ _ => mem_containers found, ?_, ?_⟩
  · rw [walkReleases_eq_each found]
    exact turn
  · intro other alsoFound sameContainers sameContent
    have listed : containers other place root = containers tree place root := by
      apply (containers_ordered other place root).eq_of_mem_iff (containers_ordered tree place root)
      rintro ⟨folder, name⟩
      rw [mem_containers alsoFound, mem_containers found, sameContainers]
    have steps : ∀ container ∈ opened,
        walkContainer other options handler root container = step container := by
      rintro ⟨folder, name⟩ begun
      have has := (mem_containers found).mp (turn.begun_prefix.subset begun)
      obtain ⟨bytes, isFile⟩ := has.isFile
      have content := hasContent_of_hasContainer found has isFile
      have otherContent := hasContent_of_hasContainer alsoFound
        ((sameContainers folder name).mpr has) ((sameContent _ begun).trans isFile)
      funext state
      simp only [step, walkContainer, walkRelease_of_content content,
        walkRelease_of_content otherContent]
    rw [walkReleases_eq_each alsoFound, walkReleases_eq_each found, listed,
      ← (turn.congr steps).eq_each]

/-- Two containers of a collection, one in each of its folders, among files that are none. -/
def mixedReleases : FileTree where
  files := [
    (["r", "y", "b.zip"], smallRelease), (["r", "x", "z", "d.zip"], []), (["r", "c.zip"], []),
    (["r", "x", "a.zip"], smallRelease), (["r", "x", "a.txt"], []), (["r", "y", ".zip"], [])]

theorem inTurn_mixedReleases :
    ∃ containers opened,
      containers.Pairwise Precedes ∧ ("x", "a.zip") ∈ containers ∧ ("y", "b.zip") ∈ containers ∧
      (∀ name, ("c.zip", name) ∉ containers) ∧ ("x", "z") ∉ containers ∧
      Handled.InTurn (walkContainer mixedReleases smallOptions counting "r") containers 0 opened
        (walkReleases mixedReleases smallOptions counting "r" 0) := by
  have found : mixedReleases.find "r" = .ok (.inside ["r"], .directory) := by rfl
  obtain ⟨containers, opened, ordered, members, inTurn, -⟩ :=
    inTurn_walkReleases found smallOptions counting 0
  refine ⟨containers, opened, ordered, ?_, ?_, ?_, ?_, inTurn⟩
  · exact (members ..).mpr ⟨rfl, ⟨smallRelease, rfl⟩, "a", by decide, rfl⟩
  · exact (members ..).mpr ⟨rfl, ⟨smallRelease, rfl⟩, "b", by decide, rfl⟩
  · intro name member
    obtain ⟨inFolder, -, -⟩ := (members ..).mp member
    cases inFolder
  · intro member
    obtain ⟨-, ⟨bytes, isFile⟩, -⟩ := (members ..).mp member
    cases isFile

end Folder

end LinkArchive
