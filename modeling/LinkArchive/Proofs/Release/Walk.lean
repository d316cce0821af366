import LinkArchive.Release.Handler

/-!
# Walks that come to their end

`Inventory.ofEntries_eq_ok` says which members make a release, and `Walk.ofZip_eq_ok` when there is
a walk through a container and what it is. All that happens on a walk concerns one of the dumps:
`Walk.isAt_ofEntry`. A handler that never fails sees every record of it:
`Handled.ofWalk_of_tireless`.
-/

namespace LinkArchive

/-! ### Inventories -/

theorem Zip.Entry.kind_of_isDump {entry : Zip.Entry} (isDump : entry.kind.isDump = true) :
    ∃ compression width, entry.kind = .dump compression width := by
  cases kind : entry.kind with
  | dump compression width => exact ⟨compression, width, rfl⟩
  | metadata =>
    rw [kind] at isDump
    cases isDump
  | other =>
    rw [kind] at isDump
    cases isDump

namespace Inventory

variable {container : String} {entries : List Zip.Entry} {inventory : Inventory}

/-- The second metadata document among the members, if `metadata` is the first. -/
def second? (metadata : Zip.Entry) (entries : List Zip.Entry) : Option Zip.Entry :=
  entries.find? fun entry => isMetadata entry && entry.index != metadata.index

theorem ofEntries_eq_ok :
    ofEntries container entries = .ok inventory ↔
      ∃ metadata, metadata? entries = some metadata ∧ second? metadata entries = none ∧
        inventory = {
          metadata
          dumps := entries.filter (·.kind.isDump)
          skipped := entries.filter (·.kind == .other) } := by
  unfold ofEntries
  cases entries with
  | nil => simp [metadata?]
  | cons first others =>
    rw [if_neg (by simp)]
    cases found : metadata? (first :: others) with
    | none => simp
    | some metadata =>
      dsimp only
      rw [← second?]
      cases second : second? metadata (first :: others) with
      | some entry =>
        constructor
        · nofun
        · rintro ⟨_, same, alone, -⟩
          cases same
          cases second.symm.trans alone
      | none =>
        constructor
        · intro same
          cases same
          exact ⟨metadata, rfl, second, rfl⟩
        · rintro ⟨_, same, -, rfl⟩
          cases same
          rfl

theorem dumps_of_ofEntries (sorted : ofEntries container entries = .ok inventory) :
    inventory.dumps = entries.filter (·.kind.isDump) := by
  obtain ⟨metadata, -, -, rfl⟩ := ofEntries_eq_ok.mp sorted
  rfl

theorem skipped_of_ofEntries (sorted : ofEntries container entries = .ok inventory) :
    inventory.skipped = entries.filter (·.kind == .other) := by
  obtain ⟨metadata, -, -, rfl⟩ := ofEntries_eq_ok.mp sorted
  rfl

end Inventory

/-! ### Walks through containers -/

namespace Walk

variable {container : String} {options : WalkOptions} {file : Bytes} {walk : Walk}

theorem ofEntries_of_inventory {entries : List Zip.Entry} {inventory : Inventory}
    (sorted : Inventory.ofEntries container entries = .ok inventory) :
    ofEntries container options entries =
      (inventory.metadata.metadata.mapError fun fault =>
        .member ⟨⟨container, inventory.metadata.name⟩, fault⟩).map
          (ofInventory container options inventory) := by
  rw [ofEntries, sorted]
  show Except.bind (inventory.metadata.metadata.mapError _) _ = _
  cases inventory.metadata.metadata <;> rfl

theorem ofEntries_eq_ok {entries : List Zip.Entry} :
    ofEntries container options entries = .ok walk ↔
      ∃ inventory metadata, Inventory.ofEntries container entries = .ok inventory ∧
        inventory.metadata.metadata = .ok metadata ∧
        walk = ofInventory container options inventory metadata := by
  constructor
  · intro found
    cases sorted : Inventory.ofEntries container entries with
    | error error =>
      rw [ofEntries, sorted] at found
      cases found
    | ok inventory =>
      rw [ofEntries_of_inventory sorted] at found
      cases decoded : inventory.metadata.metadata with
      | error fault =>
        rw [decoded] at found
        cases found
      | ok metadata =>
        rw [decoded] at found
        cases found
        exact ⟨inventory, metadata, rfl, decoded, rfl⟩
  · rintro ⟨inventory, metadata, sorted, decoded, rfl⟩
    rw [ofEntries_of_inventory sorted, decoded]
    rfl

/-- There is a walk if the container can be listed, its members make a release, and the metadata of
that can be read. -/
theorem ofZip_eq_ok :
    ofZip container options file = .ok walk ↔
      ∃ entries inventory metadata, Zip.entries? file = some entries ∧
        Inventory.ofEntries container entries = .ok inventory ∧
        inventory.metadata.metadata = .ok metadata ∧
        walk = ofInventory container options inventory metadata := by
  unfold ofZip
  cases Zip.entries? file with
  | none => simp
  | some entries => simp [ofEntries_eq_ok]

theorem ofEntry_of_dump {entry : Zip.Entry} {compression : Compression} {width : Option Nat}
    (isDump : entry.kind = .dump compression width) (metadata : ReleaseMetadata) :
    ofEntry container metadata options entry =
      ofDump metadata ⟨container, entry.name⟩ width (entry.dump compression width options) := by
  unfold ofEntry
  rw [isDump]

end Walk

/-! ### Places -/

def Diagnostic.place : Diagnostic → Location
  | warning place _ => place
  | recordError place _ _ => place
  | memberFailed error => error.place

/-- The report is on the member at a place, and so is the error in it, if there is one. -/
structure MemberReport.IsAt (place : Location) (report : MemberReport) : Prop where
  name_eq : report.name = place.member
  failed_there : ∀ error ∈ report.failure, (ReleaseError.member error).location? = some place

/-- What happened concerns the member at a place. -/
def Event.IsAt (place : Location) : Event → Prop
  | .link _ context => context.place = place
  | .diagnostic found => found.place = place
  | .memberDone report => report.IsAt place

theorem MemberReport.isAt_ofContent (place : Location) (width : Option Nat)
    (content : DumpContent) : (ofContent place width content).IsAt place := by
  refine ⟨rfl, ?_⟩
  intro error failed
  unfold ofContent failureOf at failed
  cases ending : content.ending with
  | ok count => simp [ending] at failed
  | error fault =>
    rw [ending] at failed
    obtain rfl := Option.some.inj failed
    rfl

namespace Event

theorem isAt_of_mem_ofItem {context : LinkContext} {item : DumpReader.Item} {event : Event}
    (member : event ∈ ofItem context item) : event.IsAt context.place := by
  rcases List.mem_append.mp member with warned | result
  · obtain ⟨flaw, -, rfl⟩ := List.mem_map.mp warned
    rfl
  · obtain rfl := List.mem_singleton.mp result
    cases item.result <;> rfl

theorem isAt_of_mem_ofReport {place : Location} {report : MemberReport} {event : Event}
    (there : report.IsAt place) (member : event ∈ ofReport report) : event.IsAt place := by
  rcases List.mem_append.mp member with failed | done
  · obtain ⟨error, met, rfl⟩ := List.mem_map.mp failed
    exact Option.some.inj (there.failed_there error (Option.mem_toList.mp met))
  · obtain rfl := List.mem_singleton.mp done
    exact there

end Event

namespace Walk

theorem isAt_ofDump (metadata : ReleaseMetadata) (place : Location) (width : Option Nat)
    (content : DumpContent) :
    (ofDump metadata place width content).1.IsAt place ∧
      ∀ event ∈ (ofDump metadata place width content).2, event.IsAt place := by
  have there := MemberReport.isAt_ofContent place width content
  refine ⟨there, ?_⟩
  intro event member
  rcases List.mem_append.mp member with told | reported
  · obtain ⟨item, -, told⟩ := List.mem_flatMap.mp told
    exact Event.isAt_of_mem_ofItem told
  · exact Event.isAt_of_mem_ofReport there reported

theorem isAt_ofEntry (container : String) (metadata : ReleaseMetadata) (options : WalkOptions)
    (entry : Zip.Entry) :
    (ofEntry container metadata options entry).1.IsAt ⟨container, entry.name⟩ ∧
      ∀ event ∈ (ofEntry container metadata options entry).2,
        event.IsAt ⟨container, entry.name⟩ := by
  unfold ofEntry
  cases entry.kind <;> exact isAt_ofDump ..

end Walk

/-! ### Handlers -/

def Handler.Tireless {σ : Type} (handler : Handler σ) : Prop :=
  ∀ record context state, (handler record context state).1 = none

def Event.calls (events : List Event) : List (LinkRecord × LinkContext) :=
  events.filterMap fun
    | .link record context => some (record, context)
    | _ => none

namespace Handled

variable {σ : Type} {handler : Handler σ}

theorem report_of_result {walk : Except ReleaseError Walk} {state : σ} {report : ReleaseReport}
    (walked : (ofWalk handler walk state).result = .ok report) :
    ∃ whole, walk = .ok whole ∧ report = whole.report := by
  cases walk with
  | error error => cases walked
  | ok whole =>
    unfold ofWalk andThen at walked
    dsimp only at walked
    split at walked
    · cases walked
    · cases walked
      exact ⟨whole, rfl, rfl⟩

/-- What comes of events whose records a handler takes: it took them all, or those up to the first
that it failed on. -/
inductive Taken (handler : Handler σ) : List Event → Handled σ Unit → Prop where
  | all (events : List Event) (state : σ) : Taken handler events ⟨.ok (), events, state⟩
  | upTo (seen rest : List Event) {record : LinkRecord} {context : LinkContext} {text : String}
      {before state : σ} (failed : handler record context before = (some text, state)) :
      Taken handler (seen ++ .link record context :: rest)
        ⟨.error (.handler context.place text), seen ++ [.link record context], state⟩

theorem Taken.cons {events : List Event} {handled : Handled σ Unit}
    (taken : Taken handler events handled) (event : Event) :
    Taken handler (event :: events) { handled with events := event :: handled.events } := by
  cases taken with
  | all events state => exact .all (event :: events) state
  | upTo seen rest failed => exact .upTo (event :: seen) rest failed

theorem taken_ofEvents (handler : Handler σ) (events : List Event) (state : σ) :
    Taken handler events (ofEvents handler events state) := by
  induction events generalizing state with
  | nil => exact .all [] state
  | cons event events ih =>
    cases event with
    | link record context =>
      rcases answer : handler record context state with ⟨failed, next⟩
      rw [ofEvents, answer]
      cases failed with
      | none => exact (ih next).cons (.link record context)
      | some text => exact .upTo [] events answer
    | diagnostic found => exact (ih state).cons (.diagnostic found)
    | memberDone report => exact (ih state).cons (.memberDone report)

theorem ofEvents_of_tireless (tireless : handler.Tireless) (events : List Event) (state : σ) :
    ofEvents handler events state = ⟨.ok (), events,
      (Event.calls events).foldl (fun state call => (handler call.1 call.2 state).2) state⟩ := by
  induction events generalizing state with
  | nil => rfl
  | cons event events ih =>
    cases event with
    | link record context =>
      have fine := tireless record context state
      rcases handled : handler record context state with ⟨failed, next⟩
      rw [handled] at fine
      obtain rfl : failed = none := fine
      simp only [ofEvents, handled, ih, Event.calls, List.filterMap_cons, List.foldl_cons]
    | diagnostic diagnostic =>
      simp only [ofEvents, ih, Event.calls, List.filterMap_cons]
    | memberDone report =>
      simp only [ofEvents, ih, Event.calls, List.filterMap_cons]

theorem ofWalk_of_tireless (tireless : handler.Tireless) (walk : Walk) (state : σ) :
    ofWalk handler (.ok walk) state = ⟨.ok walk.report, walk.events,
      (Event.calls walk.events).foldl (fun state call => (handler call.1 call.2 state).2)
        state⟩ := by
  rw [ofWalk, ofEvents_of_tireless tireless]
  simp [andThen, ofResult]

/-- A handler that never fails hears of one dump after the other, in the order of the container. -/
theorem ofZip_of_tireless {container : String} {file : Bytes} {entries : List Zip.Entry}
    {inventory : Inventory} {metadata : ReleaseMetadata}
    (listed : Zip.entries? file = some entries)
    (sorted : Inventory.ofEntries container entries = .ok inventory)
    (decoded : inventory.metadata.metadata = .ok metadata) (tireless : handler.Tireless)
    (options : WalkOptions) (state : σ) :
    let dumps := (entries.filter (·.kind.isDump)).map (Walk.ofEntry container metadata options)
    ofWalk handler (Walk.ofZip container options file) state = {
      result := .ok {
        container
        metadata
        members := dumps.map (·.1)
        skipped := inventory.skipped.map (·.name) }
      events := dumps.flatMap (·.2)
      state := (dumps.flatMap fun came => Event.calls came.2).foldl
        (fun state call => (handler call.1 call.2 state).2) state } := by
  have walk : Walk.ofZip container options file =
      .ok (Walk.ofInventory container options inventory metadata) :=
    Walk.ofZip_eq_ok.mpr ⟨entries, inventory, metadata, listed, sorted, decoded, rfl⟩
  rw [walk, ofWalk_of_tireless tireless, ← Inventory.dumps_of_ofEntries sorted]
  simp only [Walk.ofInventory, Event.calls, List.filterMap_flatMap]

end Handled

/-! ### A small release -/

/-- A release of two dumps. The second has another checksum than its directory states. -/
def smallRelease : Bytes := [
  80, 75, 3, 4, 20, 0, 0, 0, 0, 0, 0, 0, 33, 0, 231, 153, 78, 191, 52, 0, 0, 0, 52, 0, 0, 0, 14,
  0, 0, 0, 97, 46, 109, 101, 116, 97, 46, 106, 115, 111, 110, 46, 120, 122, 253, 55, 122, 88, 90,
  0, 0, 0, 255, 18, 217, 65, 2, 0, 33, 1, 22, 0, 0, 0, 116, 47, 229, 163, 1, 0, 1, 123, 125, 0,
  0, 0, 0, 1, 18, 2, 212, 164, 124, 182, 6, 114, 158, 122, 1, 0, 0, 0, 0, 0, 89, 90, 80, 75, 3,
  4, 20, 0, 0, 0, 0, 0, 0, 0, 33, 0, 47, 139, 174, 236, 48, 0, 0, 0, 48, 0, 0, 0, 8, 0, 0, 0, 51,
  46, 116, 120, 116, 46, 103, 122, 31, 139, 8, 0, 0, 0, 0, 0, 4, 3, 1, 25, 0, 230, 255, 35, 86,
  58, 32, 49, 10, 10, 97, 98, 99, 124, 120, 10, 10, 110, 111, 98, 97, 114, 10, 97, 98, 124, 121,
  10, 209, 164, 33, 159, 25, 0, 0, 0, 80, 75, 3, 4, 20, 0, 0, 0, 0, 0, 0, 0, 33, 0, 231, 192,
  207, 87, 27, 0, 0, 0, 27, 0, 0, 0, 8, 0, 0, 0, 50, 46, 116, 120, 116, 46, 103, 122, 31, 139, 8,
  0, 0, 0, 0, 0, 4, 3, 1, 4, 0, 251, 255, 97, 124, 98, 10, 117, 62, 43, 72, 4, 0, 0, 0, 80, 75,
  1, 2, 20, 3, 20, 0, 0, 0, 0, 0, 0, 0, 33, 0, 231, 153, 78, 191, 52, 0, 0, 0, 52, 0, 0, 0, 14,
  0, 0, 0, 0, 0, 0, 0, 0, 0, 0, 0, 128, 1, 0, 0, 0, 0, 97, 46, 109, 101, 116, 97, 46, 106, 115,
  111, 110, 46, 120, 122, 80, 75, 1, 2, 20, 3, 20, 0, 0, 0, 0, 0, 0, 0, 33, 0, 47, 139, 174, 236,
  48, 0, 0, 0, 48, 0, 0, 0, 8, 0, 0, 0, 0, 0, 0, 0, 0, 0, 0, 0, 128, 1, 96, 0, 0, 0, 51, 46, 116,
  120, 116, 46, 103, 122, 80, 75, 1, 2, 20, 3, 20, 0, 0, 0, 0, 0, 0, 0, 33, 0, 230, 192, 207, 87,
  27, 0, 0, 0, 27, 0, 0, 0, 8, 0, 0, 0, 0, 0, 0, 0, 0, 0, 0, 0, 128, 1, 182, 0, 0, 0, 50, 46,
  116, 120, 116, 46, 103, 122, 80, 75, 5, 6, 0, 0, 0, 0, 3, 0, 3, 0, 168, 0, 0, 0, 247, 0, 0, 0,
  0, 0]

/-- The first of the two dumps: a header field, two records, a bad line and blank lines. -/
def smallDump : Bytes := [
  31, 139, 8, 0, 0, 0, 0, 0, 4, 3, 1, 25, 0, 230, 255, 35, 86, 58, 32, 49, 10, 10, 97, 98, 99,
  124, 120, 10, 10, 110, 111, 98, 97, 114, 10, 97, 98, 124, 121, 10, 209, 164, 33, 159, 25, 0, 0,
  0]

def smallContent : Bytes := [
  35, 86, 58, 32, 49, 10, 10, 97, 98, 99, 124, 120, 10, 10, 110, 111, 98, 97, 114, 10, 97, 98,
  124, 121, 10]

/-- The digest of the first dump, and bars required. -/
def smallOptions : WalkOptions where
  requireSeparator := true
  memberDigests := [("3.txt.gz", { md5 := some ⟨[
    38, 46, 66, 167, 114, 193, 250, 84, 198, 76, 127, 185, 72, 167, 234, 210], rfl⟩ })]

theorem sorted_smallRelease : ∃ entries inventory metadata,
    Zip.entries? smallRelease = some entries ∧ Inventory.ofEntries "c" entries = .ok inventory ∧
      inventory.metadata.metadata = .ok metadata := by
  have walks : (Walk.ofZip "c" {} smallRelease).toOption.isSome = true := by
    decide +kernel
  cases walk : Walk.ofZip "c" {} smallRelease with
  | error error =>
    rw [walk] at walks
    cases walks
  | ok whole =>
    obtain ⟨entries, inventory, metadata, listed, sorted, decoded, -⟩ := Walk.ofZip_eq_ok.mp walk
    exact ⟨entries, inventory, metadata, listed, sorted, decoded⟩

def counting : Handler Nat := fun _ _ count => (none, count + 1)

end LinkArchive
