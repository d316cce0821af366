import LinkArchive.Proofs.Release.Following
import LinkArchive.Proofs.Release.Outcome
import LinkArchive.Proofs.Zip.Directory

/-!
# Where a handler stops a walk

A walk ends with the record that its handler fails on. There is no report on the member of that
record, and no later container is walked through: `Handled.stopped_of_failure`.
-/

namespace LinkArchive

variable {σ α β : Type} {handler : Handler σ}

/-! ### Reports that are not made -/

/-- No record of a member comes behind the report on it. -/
def Event.Leaves : Event → Event → Prop
  | .memberDone report, .link _ context => report.name ≠ context.place.member
  | _, _ => True

theorem Event.leaves_of_isAt {first later : Event} {place other : Location}
    (there : first.IsAt place) (elsewhere : later.IsAt other)
    (different : place.member ≠ other.member) : first.Leaves later := by
  cases first with
  | memberDone report =>
    cases later with
    | link record context =>
      have place_eq : context.place = other := elsewhere
      rw [Leaves, there.name_eq, place_eq]
      exact different
    | _ => trivial
  | _ => trivial

theorem Event.leaves_of_mem_ofItem {context : LinkContext} {item : DumpReader.Item} {event : Event}
    (member : event ∈ ofItem context item) (later : Event) : event.Leaves later := by
  rcases List.mem_append.mp member with warned | result
  · obtain ⟨flaw, -, rfl⟩ := List.mem_map.mp warned
    trivial
  · obtain rfl := List.mem_singleton.mp result
    cases item.result <;> trivial

theorem Event.leaves_of_mem_ofReport {report : MemberReport} {event : Event}
    (member : event ∈ ofReport report) (first : Event) : first.Leaves event := by
  rcases List.mem_append.mp member with failed | done
  · obtain ⟨error, -, rfl⟩ := List.mem_map.mp failed
    cases first <;> trivial
  · obtain rfl := List.mem_singleton.mp done
    cases first <;> trivial

namespace Walk

variable {container : String} {options : WalkOptions}

theorem leaves_ofDump (metadata : ReleaseMetadata) (place : Location) (width : Option Nat)
    (content : DumpContent) :
    (ofDump metadata place width content).2.Pairwise Event.Leaves := by
  have items : ∀ event ∈ content.items.flatMap
      (Event.ofItem { metadata, header := content.header, width, place }), ∀ later,
      event.Leaves later := by
    intro event member later
    obtain ⟨item, -, told⟩ := List.mem_flatMap.mp member
    exact Event.leaves_of_mem_ofItem told later
  have reported : ∀ event ∈ Event.ofReport (.ofContent place width content), ∀ first : Event,
      first.Leaves event := fun event member => Event.leaves_of_mem_ofReport member
  refine List.pairwise_append.mpr ⟨?_, ?_, ?_⟩
  · exact List.pairwise_of_forall_mem_list fun event member later _ => items event member later
  · exact List.pairwise_of_forall_mem_list fun first _ event member => reported event member first
  · exact fun event member later _ => items event member later

theorem leaves_ofInventory (container : String) (options : WalkOptions) {inventory : Inventory}
    (metadata : ReleaseMetadata) (unique : (inventory.dumps.map (·.name)).Nodup) :
    (ofInventory container options inventory metadata).events.Pairwise Event.Leaves := by
  rw [ofInventory, List.flatMap_map, List.pairwise_flatMap]
  constructor
  · intro entry _
    rw [ofEntry]
    cases entry.kind <;> exact leaves_ofDump ..
  · refine (List.pairwise_map.mp unique).imp ?_
    intro first later different event member other also
    have there := (isAt_ofEntry container metadata options first).2 event member
    have elsewhere := (isAt_ofEntry container metadata options later).2 other also
    exact Event.leaves_of_isAt there elsewhere different

end Walk

/-- There is no report yet on the member at a place, which is a dump in this container. -/
structure Location.Unreported (container : String) (file : Bytes) (events : List Event)
    (place : Location) : Prop where
  container_eq : place.container = container
  member_found : ∃ entries, Zip.entries? file = some entries ∧
    ∃ entry ∈ entries, entry.kind.isDump = true ∧ entry.name = place.member
  unreported : ∀ report, .memberDone report ∈ events → report.name ≠ place.member

namespace Handled

/-- Only a record that the handler fails on ends a walk that has begun. -/
theorem cut_of_error {walk : Walk} {state : σ} {error : ReleaseError}
    (stopped : (ofWalk handler (.ok walk) state).result = .error error) :
    ∃ seen rest record context text, walk.events = seen ++ .link record context :: rest ∧
      (ofWalk handler (.ok walk) state).events = seen ++ [.link record context] ∧
      error = .handler context.place text := by
  have taken := taken_ofEvents handler walk.events state
  rw [ofWalk] at stopped ⊢
  generalize ofEvents handler walk.events state = handled at taken stopped ⊢
  generalize walk.events = events at taken ⊢
  cases taken with
  | all => cases stopped
  | upTo seen rest failed =>
    cases stopped
    exact ⟨seen, rest, _, _, _, rfl, rfl, rfl⟩

end Handled

/-- Where a handler failed on a record, the member of that is not reported on. -/
theorem Visit.unreported_of_error {container : String} {options : WalkOptions} {file : Bytes}
    {state : σ} {place : Location} {text : String}
    (stopped : (release handler container options file state).result =
      .error (.handler place text)) :
    place.Unreported container file (release handler container options file state).events := by
  rw [release_eq_ofWalk] at stopped ⊢
  cases whole : Walk.ofZip container options file with
  | error error =>
    rw [whole] at stopped
    cases stopped
    exact absurd rfl (Walk.ofZip_error_ne_handler whole place text)
  | ok walk =>
    obtain ⟨entries, inventory, metadata, listed, sorted, -, rfl⟩ := Walk.ofZip_eq_ok.mp whole
    have dumps := Inventory.dumps_of_ofEntries sorted
    have unique : (inventory.dumps.map (·.name)).Nodup := by
      rw [dumps]
      exact (Zip.nodup_names_of_entries? listed).sublist (List.filter_sublist.map _)
    rw [whole] at stopped
    obtain ⟨seen, rest, record, context, _, events, told, same⟩ := Handled.cut_of_error stopped
    cases same
    have member : .link record context ∈
        (Walk.ofInventory container options inventory metadata).events := by
      simp [events]
    obtain ⟨entry, dump, there⟩ := Walk.isAt_of_mem_ofInventory member
    have there : context.place = ⟨container, entry.name⟩ := there
    rw [dumps] at dump
    obtain ⟨found, isDump⟩ := List.mem_filter.mp dump
    refine ⟨by rw [there], ⟨entries, listed, entry, found, isDump, by rw [there]⟩, ?_⟩
    intro report reported
    rw [told] at reported
    have leaves := Walk.leaves_ofInventory container options metadata unique
    rw [events] at leaves
    rcases List.mem_append.mp reported with before | last
    · exact (List.pairwise_append.mp leaves).2.2 _ before _ List.mem_cons_self
    · cases List.mem_singleton.mp last

/-! ### Folders -/

namespace Folder

variable {tree : FileTree} {options : WalkOptions} {root path : String} {state : σ}
variable {place : Location} {text : String}

theorem pathsIn_ne_handler {keep : String → Bool} {folder : String} :
    pathsIn tree keep folder ≠ .error (.handler place text) := by
  unfold pathsIn
  split <;> nofun

/-- What a container at a path has in it. -/
def HasContent (tree : FileTree) (path : String) (file : Bytes) : Prop :=
  ∃ source rest, tree.openFile path = .ok source ∧ source.readToEnd = (file, none, rest)

theorem walkRelease_of_content {file : Bytes} (content : HasContent tree path file) :
    walkRelease tree options handler path state =
      Visit.release handler path options file state := by
  obtain ⟨source, rest, opened, read⟩ := content
  rw [Visit.release_eq_ofWalk, walkRelease, walkAt]
  simp only [opened, read]

theorem unreported_of_error
    (stopped : (walkRelease tree options handler path state).result =
      .error (.handler place text)) :
    ∃ file, HasContent tree path file ∧ place.Unreported path file
      (walkRelease tree options handler path state).events := by
  cases opened : tree.openFile path with
  | error fault =>
    simp only [walkRelease, walkAt, opened] at stopped
    cases stopped
  | ok source =>
    rcases read : source.readToEnd with ⟨file, _ | error, rest⟩
    · have content : HasContent tree path file := ⟨source, rest, opened, read⟩
      rw [walkRelease_of_content content] at stopped ⊢
      exact ⟨file, content, Visit.unreported_of_error stopped⟩
    · simp only [walkRelease, walkAt, opened, read] at stopped
      cases stopped

/-- The walk through the releases in a folder ends in one container: it is made up of what happens
in the folders before, in the containers before in the folder of this one, and in it. -/
structure EndsIn (tree : FileTree) (options : WalkOptions) (handler : Handler σ) (root : String)
    (state : σ) (path : String) (last : Handled σ ReleaseReport)
    (handled : Handled σ (List ReleaseReport)) : Prop where
  reached : ∃ foldersBefore folder foldersAfter before after,
    pathsIn tree tree.isDirectory root = .ok (foldersBefore ++ folder :: foldersAfter) ∧
    pathsIn tree (isContainer tree) folder = .ok (before ++ path :: after) ∧
    let past := Handled.each (walkContainers tree options handler) foldersBefore state
    let recent := Handled.each (walkRelease tree options handler) before past.state
    (∃ reports, past.result = .ok reports) ∧ (∃ reports, recent.result = .ok reports) ∧
      last = walkRelease tree options handler path recent.state ∧
      handled.events = past.events ++ recent.events ++ last.events
  result_eq : ∃ error, last.result = .error error ∧ handled.result = .error error
  state_eq : handled.state = last.state

theorem walkContainers_of_paths {folder : String} {paths : List String}
    (found : pathsIn tree (isContainer tree) folder = .ok paths) (state : σ) :
    walkContainers tree options handler folder state =
      Handled.each (walkRelease tree options handler) paths state := by
  rw [walkContainers, found, Handled.andThen_ofResult]

theorem endsIn_of_error
    (stopped : (walkReleases tree options handler root state).result =
      .error (.handler place text)) :
    ∃ path last, EndsIn tree options handler root state path last
      (walkReleases tree options handler root state) := by
  unfold walkReleases at stopped ⊢
  cases listed : pathsIn tree tree.isDirectory root with
  | error error =>
    rw [listed] at stopped
    cases stopped
    exact absurd listed pathsIn_ne_handler
  | ok folders =>
    rw [listed, Handled.andThen_ofResult] at stopped
    rw [Handled.andThen_ofResult]
    obtain ⟨failed, events, final⟩ := Handled.eq_error_of_andThen stopped nofun
    obtain ⟨foldersBefore, folder, foldersAfter, rfl, past, inFolder, earlier, reached⟩ :=
      Handled.eq_error_of_each failed
    rw [earlier] at events
    rw [reached] at final
    cases found : pathsIn tree (isContainer tree) folder with
    | error error =>
      rw [walkContainers, found] at inFolder
      cases inFolder
      exact absurd found pathsIn_ne_handler
    | ok paths =>
      rw [walkContainers_of_paths found] at inFolder events final
      obtain ⟨before, path, after, rfl, recent, inContainer, told, ended⟩ :=
        Handled.eq_error_of_each inFolder
      refine ⟨path, _, ⟨foldersBefore, folder, foldersAfter, before, after, listed, found, past,
        recent, rfl, ?_⟩, ⟨_, inContainer, stopped⟩, final.trans ended⟩
      rw [events, told, List.append_assoc]

end Folder

/-! ### Two small releases -/

/-- Takes as many records as it is told, and fails on the next. -/
def failingAfter (count : Nat) : Handler Nat := fun _ _ taken =>
  (if taken = count then some "full" else none, taken + 1)

theorem takes_failingAfter {count : Nat} (calls : List (LinkRecord × LinkContext)) {taken : Nat}
    (room : taken + calls.length = count) : (failingAfter count).Takes calls taken count := by
  induction calls generalizing taken with
  | nil =>
    obtain rfl : taken = count := room
    exact .nil taken
  | cons call calls ih =>
    rw [List.length_cons] at room
    have more : taken ≠ count := by omega
    have answer : failingAfter count call.1 call.2 taken = (none, taken + 1) := by
      rw [failingAfter, if_neg more]
    exact .cons answer (ih (by omega))

theorem failingAfter_full (count : Nat) (record : LinkRecord) (context : LinkContext) :
    failingAfter count record context count = (some "full", count + 1) := by
  rw [failingAfter, if_pos rfl]

theorem exists_call {calls : List (LinkRecord × LinkContext)} {before after : List Location}
    {place : Location} (places : calls.map (·.2.place) = before ++ place :: after) :
    ∃ earlier record context later, calls = earlier ++ (record, context) :: later ∧
      earlier.length = before.length ∧ context.place = place := by
  obtain ⟨earlier, others, rfl, rfl, others_eq⟩ := List.map_eq_append_iff.mp places
  obtain ⟨call, later, rfl, rfl, -⟩ := List.map_eq_cons_iff.mp others_eq
  exact ⟨earlier, call.1, call.2, later, rfl, (List.length_map _).symm, rfl⟩

/-- A folder with two containers that are alike. -/
def twoReleases : FileTree where
  files := [(["r", "x", "a.zip"], smallRelease), (["r", "x", "b.zip"], smallRelease)]

theorem Folder.events_twoReleases (options : WalkOptions) (handler : Handler σ) (state : σ) :
    (walkReleases twoReleases options handler "r" state).events =
      (Handled.each (walkRelease twoReleases options handler) ["r/x/a.zip", "r/x/b.zip"]
        state).events := by
  have folders : pathsIn twoReleases twoReleases.isDirectory "r" = .ok ["r/x"] := by
    decide +kernel
  have found : twoReleases.find "r/x" = .ok (.inside ["r", "x"], .directory) := by
    rfl
  have children : (twoReleases.paths.filterMap (FileTree.childName? ["r", "x"])).eraseDups =
      ["a.zip", "b.zip"] := by
    decide +kernel
  have sorted : (["a.zip", "b.zip"]).mergeSort FileTree.nameLe = ["a.zip", "b.zip"] :=
    List.mergeSort_of_pairwise (by decide +kernel)
  have containers : pathsIn twoReleases (isContainer twoReleases) "r/x" =
      .ok ["r/x/a.zip", "r/x/b.zip"] := by
    rw [pathsIn, FileTree.names, found]
    dsimp only
    rw [children, sorted]
    decide +kernel
  rw [walkReleases, folders, Handled.andThen_ofResult, Handled.each,
    walkContainers_of_paths containers]
  rcases Handled.each (walkRelease twoReleases options handler) _ state with ⟨_ | _, events, _⟩
  · rfl
  · simp [Handled.andThen, Handled.each, Handled.ofResult]

/-! ### Walks that a handler stops -/

/-- A handler that fails on a record, after it took those before, ends the walk with that record:
up to there everything is as if it did not fail, the member of the record is not reported on, and of
several containers no later one is walked through. -/
theorem Handled.stopped_of_failure {σ τ : Type} {handler : Handler σ} {calm : Handler τ}
    (tireless : calm.Tireless) {before after : List (LinkRecord × LinkContext)}
    {record : LinkRecord} {context : LinkContext} {text : String} {state middle last : σ}
    (taken : handler.Takes before state middle)
    (failed : handler record context middle = (some text, last)) (calmState : τ)
    (options : WalkOptions) :
    (∀ container file,
      let whole := Visit.release calm container options file calmState
      let handled := Visit.release handler container options file state
      (Event.calls whole.events = before ++ (record, context) :: after ∨
        Event.calls handled.events = before ++ (record, context) :: after) →
        handled.Stopped whole.events before record context text last ∧
          context.place.Unreported container file handled.events) ∧
    ∀ tree root,
      let whole := Folder.walkReleases tree options calm root calmState
      let handled := Folder.walkReleases tree options handler root state
      (Event.calls whole.events = before ++ (record, context) :: after ∨
        Event.calls handled.events = before ++ (record, context) :: after) →
        handled.Stopped whole.events before record context text last ∧
          ∃ path ended file, Folder.EndsIn tree options handler root state path ended handled ∧
            Folder.HasContent tree path file ∧ context.place.Unreported path file ended.events := by
  constructor
  · intro container file whole handled calls
    have follows : Handled.Follows handler state whole handled :=
      Visit.follows_release tireless handler container options file calmState state
    have stopped := follows.stopped calls taken failed
    exact ⟨stopped, Visit.unreported_of_error stopped.result_eq⟩
  · intro tree root whole handled calls
    have follows : Handled.Follows handler state whole handled :=
      Folder.follows_walkReleases tireless handler tree options root calmState state
    have stopped := follows.stopped calls taken failed
    refine ⟨stopped, ?_⟩
    obtain ⟨path, ended, ends⟩ := Folder.endsIn_of_error stopped.result_eq
    obtain ⟨error, result, same⟩ := ends.result_eq
    obtain ⟨_, _, _, _, _, -, -, -, -, rfl, -⟩ := ends.reached
    cases stopped.result_eq.symm.trans same
    obtain ⟨file, content, unreported⟩ := Folder.unreported_of_error result
    exact ⟨path, _, file, ends, content, unreported⟩

theorem Handled.stopped_in_small_releases :
    (∃ before record context after,
      Event.calls (Visit.release counting "c" smallOptions smallRelease 0).events =
        before ++ (record, context) :: after ∧ before.length = 2 ∧
      context.place = ⟨"c", "2.txt.gz"⟩ ∧
      let handled := Visit.release (failingAfter 2) "c" smallOptions smallRelease 0
      handled.Stopped (Visit.release counting "c" smallOptions smallRelease 0).events before record
          context "full" 3 ∧
        context.place.Unreported "c" smallRelease handled.events) ∧
    ∃ before record context after,
      Event.calls (Folder.walkReleases twoReleases smallOptions counting "r" 0).events =
        before ++ (record, context) :: after ∧ before.length = 4 ∧
      context.place = ⟨"r/x/b.zip", "3.txt.gz"⟩ ∧
      let handled := Folder.walkReleases twoReleases smallOptions (failingAfter 4) "r" 0
      handled.Stopped (Folder.walkReleases twoReleases smallOptions counting "r" 0).events before
          record context "full" 5 ∧
        ∃ path ended file,
          Folder.EndsIn twoReleases smallOptions (failingAfter 4) "r" 0 path ended handled ∧
          Folder.HasContent twoReleases path file ∧
            context.place.Unreported path file ended.events := by
  have tireless : counting.Tireless := fun _ _ _ => rfl
  constructor
  · let whole := Visit.release counting "c" smallOptions smallRelease 0
    have places : (Event.calls whole.events).map (·.2.place) =
        [⟨"c", "3.txt.gz"⟩, ⟨"c", "3.txt.gz"⟩] ++ ⟨"c", "2.txt.gz"⟩ :: [] := by
      decide +kernel
    obtain ⟨before, record, context, after, calls, length, place⟩ := exists_call places
    have taken := takes_failingAfter before (show 0 + before.length = 2 by rw [length]; rfl)
    have failed := failingAfter_full 2 record context
    exact ⟨before, record, context, after, calls, length, place,
      (stopped_of_failure tireless taken failed 0 smallOptions).1 "c" smallRelease (.inl calls)⟩
  · let whole := Folder.walkReleases twoReleases smallOptions counting "r" 0
    have places : (Event.calls whole.events).map (·.2.place) =
        [⟨"r/x/a.zip", "3.txt.gz"⟩, ⟨"r/x/a.zip", "3.txt.gz"⟩, ⟨"r/x/a.zip", "2.txt.gz"⟩,
          ⟨"r/x/b.zip", "3.txt.gz"⟩] ++ ⟨"r/x/b.zip", "3.txt.gz"⟩ ::
            [⟨"r/x/b.zip", "2.txt.gz"⟩] := by
      rw [Folder.events_twoReleases]
      decide +kernel
    obtain ⟨before, record, context, after, calls, length, place⟩ := exists_call places
    have taken := takes_failingAfter before (show 0 + before.length = 4 by rw [length]; rfl)
    have failed := failingAfter_full 4 record context
    exact ⟨before, record, context, after, calls, length, place,
      (stopped_of_failure tireless taken failed 0 smallOptions).2 twoReleases "r" (.inl calls)⟩

end LinkArchive
