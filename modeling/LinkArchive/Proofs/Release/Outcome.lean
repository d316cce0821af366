import LinkArchive.Proofs.Release.Walk
import Mathlib.Data.List.Forall2

/-!
# How walks end

A walk comes to its end with a report on each dump, or ends at a record that the handler fails on.
When there is nothing to go through, nothing happens at all: `Handled.outcome_of_walk`.
-/

namespace LinkArchive

variable {container : String} {options : WalkOptions}

/-! ### Releases that cannot be walked through -/

theorem Inventory.error_ne_handler {entries : List Zip.Entry} {error : ReleaseError}
    (failed : ofEntries container entries = .error error) (place : Location) (text : String) :
    error ≠ .handler place text := by
  rintro rfl
  unfold ofEntries at failed
  split at failed
  · cases failed
  · split at failed
    · cases failed
    · split at failed <;> cases failed

namespace Walk

theorem ofEntries_error_ne_handler {entries : List Zip.Entry} {error : ReleaseError}
    (failed : ofEntries container options entries = .error error) (place : Location)
    (text : String) : error ≠ .handler place text := by
  cases sorted : Inventory.ofEntries container entries with
  | error fault =>
    rw [ofEntries, sorted] at failed
    cases failed
    exact Inventory.error_ne_handler sorted place text
  | ok inventory =>
    rw [ofEntries_of_inventory sorted] at failed
    cases decoded : inventory.metadata.metadata with
    | error fault =>
      rw [decoded] at failed
      cases failed
      exact ReleaseError.noConfusion
    | ok metadata =>
      rw [decoded] at failed
      cases failed

theorem ofZip_error_ne_handler {file : Bytes} {error : ReleaseError}
    (failed : ofZip container options file = .error error) (place : Location) (text : String) :
    error ≠ .handler place text := by
  unfold ofZip at failed
  cases listed : Zip.entries? file with
  | none =>
    rw [listed] at failed
    cases failed
    exact ReleaseError.noConfusion
  | some entries =>
    rw [listed] at failed
    exact ofEntries_error_ne_handler failed place text

end Walk

/-! ### Reports on whole releases -/

/-- The report has one report on each dump among the entries, in their order, and the names of the
entries that are neither dumps nor metadata. -/
structure ReleaseReport.Covers (container : String) (metadata : ReleaseMetadata)
    (entries : List Zip.Entry) (report : ReleaseReport) : Prop where
  container_eq : report.container = container
  metadata_eq : report.metadata = metadata
  members_at : List.Forall₂ (fun entry member => MemberReport.IsAt ⟨container, entry.name⟩ member)
    (entries.filter (·.kind.isDump)) report.members
  skipped_eq : report.skipped = (entries.filter (·.kind == .other)).map (·.name)

namespace Walk

theorem covers_ofInventory {entries : List Zip.Entry} {inventory : Inventory}
    (sorted : Inventory.ofEntries container entries = .ok inventory) (metadata : ReleaseMetadata) :
    (ofInventory container options inventory metadata).report.Covers container metadata
      entries := by
  refine ⟨rfl, rfl, ?_, ?_⟩
  · have members : (ofInventory container options inventory metadata).report.members =
        inventory.dumps.map fun entry => (ofEntry container metadata options entry).1 :=
      List.map_map ..
    rw [members, Inventory.dumps_of_ofEntries sorted, List.forall₂_map_right_iff,
      List.forall₂_same]
    intro entry _
    exact (isAt_ofEntry container metadata options entry).1
  · show inventory.skipped.map _ = _
    rw [Inventory.skipped_of_ofEntries sorted]

theorem isAt_of_mem_ofInventory {inventory : Inventory} {metadata : ReleaseMetadata} {event : Event}
    (member : event ∈ (ofInventory container options inventory metadata).events) :
    ∃ entry ∈ inventory.dumps, event.IsAt ⟨container, entry.name⟩ := by
  obtain ⟨came, origin, told⟩ := List.mem_flatMap.mp member
  obtain ⟨entry, dump, rfl⟩ := List.mem_map.mp origin
  exact ⟨entry, dump, (isAt_ofEntry container metadata options entry).2 event told⟩

end Walk

/-! ### Outcomes -/

namespace Handled

variable {σ : Type} {handler : Handler σ}

/-- The handler failed on a record of the member at a place, and nothing happened after that. -/
def StoppedAt (handler : Handler σ) (place : Location) (handled : Handled σ ReleaseReport) : Prop :=
  ∃ seen record context before text,
    handler record context before = (some text, handled.state) ∧ context.place = place ∧
    handled.events = seen ++ [.link record context] ∧
    handled.result = .error (.handler place text)

theorem StoppedAt.result_eq {place : Location} {handled : Handled σ ReleaseReport}
    (stopped : handled.StoppedAt handler place) :
    ∃ text, handled.result = .error (.handler place text) := by
  obtain ⟨-, -, -, -, text, -, -, -, result⟩ := stopped
  exact ⟨text, result⟩

theorem finished_or_stopped (handler : Handler σ) (walk : Walk) (state : σ) :
    (ofWalk handler (.ok walk) state).events <+: walk.events ∧
      ((ofWalk handler (.ok walk) state).result = .ok walk.report ∨
        ∃ record context, .link record context ∈ walk.events ∧
          (ofWalk handler (.ok walk) state).StoppedAt handler context.place) := by
  have taken := taken_ofEvents handler walk.events state
  rw [ofWalk]
  generalize ofEvents handler walk.events state = handled at taken ⊢
  generalize walk.events = events at taken ⊢
  cases taken with
  | all => exact ⟨by simp [andThen, ofResult], .inl rfl⟩
  | @upTo seen rest record context text before final failed =>
    refine ⟨⟨rest, by simp [andThen]⟩, .inr ⟨record, context, by simp, ?_⟩⟩
    exact ⟨seen, record, context, before, text, failed, rfl, rfl, rfl⟩

/-- Once the metadata of a release is known, only the handler can keep the walk from its end. -/
theorem outcome_of_decoded {file : Bytes} {entries : List Zip.Entry} {inventory : Inventory}
    {metadata : ReleaseMetadata} (listed : Zip.entries? file = some entries)
    (sorted : Inventory.ofEntries container entries = .ok inventory)
    (decoded : inventory.metadata.metadata = .ok metadata) (handler : Handler σ)
    (options : WalkOptions) (state : σ) :
    let handled := ofWalk handler (Walk.ofZip container options file) state
    ((∃ report, handled.result = .ok report ∧ report.Covers container metadata entries) ∨
      ∃ entry ∈ entries, entry.kind.isDump = true ∧
        handled.StoppedAt handler ⟨container, entry.name⟩) ∧
    ∀ event ∈ handled.events, ∃ entry ∈ entries, entry.kind.isDump = true ∧
      event.IsAt ⟨container, entry.name⟩ := by
  intro handled
  let walk := Walk.ofInventory container options inventory metadata
  have whole : Walk.ofZip container options file = .ok walk :=
    Walk.ofZip_eq_ok.mpr ⟨entries, inventory, metadata, listed, sorted, decoded, rfl⟩
  have same : handled = ofWalk handler (.ok walk) state := by
    rw [← whole]
  have placed : ∀ event ∈ walk.events, ∃ entry ∈ entries, entry.kind.isDump = true ∧
      event.IsAt ⟨container, entry.name⟩ := by
    intro event member
    obtain ⟨entry, dump, there⟩ := Walk.isAt_of_mem_ofInventory member
    rw [Inventory.dumps_of_ofEntries sorted] at dump
    obtain ⟨found, isDump⟩ := List.mem_filter.mp dump
    exact ⟨entry, found, isDump, there⟩
  obtain ⟨soFar, ending⟩ := finished_or_stopped handler walk state
  rw [same]
  refine ⟨?_, fun event member => placed event (soFar.subset member)⟩
  rcases ending with finished | ⟨record, context, member, stopped⟩
  · exact .inl ⟨walk.report, finished, Walk.covers_ofInventory sorted metadata⟩
  · obtain ⟨entry, found, isDump, there⟩ := placed _ member
    have place : context.place = ⟨container, entry.name⟩ := there
    exact .inr ⟨entry, found, isDump, place ▸ stopped⟩

/-- Nothing happens before the metadata of the release is known. -/
theorem ending_of_walk (handler : Handler σ) (container : String) (options : WalkOptions)
    (file : Bytes) (state : σ) :
    let handled := ofWalk handler (Walk.ofZip container options file) state
    (∃ error, (∀ place text, error ≠ .handler place text) ∧ handled = ⟨.error error, [], state⟩) ∨
    (∃ report, handled.result = .ok report) ∨
    ∃ entries, Zip.entries? file = some entries ∧ ∃ entry ∈ entries, entry.kind.isDump = true ∧
      handled.StoppedAt handler ⟨container, entry.name⟩ := by
  intro handled
  cases whole : Walk.ofZip container options file with
  | error error =>
    have same : handled = ofWalk handler (.error error) state := by
      rw [← whole]
    exact .inl ⟨error, Walk.ofZip_error_ne_handler whole, same⟩
  | ok walk =>
    obtain ⟨entries, inventory, metadata, listed, sorted, decoded, -⟩ := Walk.ofZip_eq_ok.mp whole
    obtain ⟨⟨report, finished, -⟩ | stopped, -⟩ :=
      outcome_of_decoded listed sorted decoded handler options state
    · exact .inr (.inl ⟨report, finished⟩)
    · exact .inr (.inr ⟨entries, listed, stopped⟩)

/-- A walk that gives an error without the handler's doing has not begun. One that began ends with
a report on each dump, or at a record of a dump that the handler failed on. What happens on it
concerns the dumps, each error that of its own place. -/
theorem outcome_of_walk (handler : Handler σ) (container : String) (options : WalkOptions)
    (file : Bytes) (state : σ) :
    let handled := ofWalk handler (Walk.ofZip container options file) state
    (∀ error, handled.result = .error error → (∀ place text, error ≠ .handler place text) →
      handled.events = [] ∧ handled.state = state) ∧
    (∀ place text, handled.result = .error (.handler place text) →
      ∃ entries, Zip.entries? file = some entries ∧ ∃ entry ∈ entries, entry.kind.isDump = true ∧
        (ReleaseError.handler place text).location? = some ⟨container, entry.name⟩ ∧
        handled.StoppedAt handler ⟨container, entry.name⟩) ∧
    ∀ entries inventory metadata, Zip.entries? file = some entries →
      Inventory.ofEntries container entries = .ok inventory →
      inventory.metadata.metadata = .ok metadata →
      ((∃ report, handled.result = .ok report ∧ report.Covers container metadata entries) ∨
        ∃ place text, handled.result = .error (.handler place text)) ∧
      ∀ event ∈ handled.events, ∃ entry ∈ entries, entry.kind.isDump = true ∧
        event.IsAt ⟨container, entry.name⟩ := by
  intro handled
  have ending := ending_of_walk handler container options file state
  refine ⟨?_, ?_, ?_⟩
  · intro error failed structural
    rcases ending with ⟨_, -, untouched⟩ | ⟨report, finished⟩ | ⟨entries, -, entry, -, -, stopped⟩
    · rw [show handled = _ from untouched]
      exact ⟨rfl, rfl⟩
    · cases failed.symm.trans finished
    · obtain ⟨text, result⟩ := stopped.result_eq
      cases failed.symm.trans result
      cases structural _ text rfl
  · intro place text failed
    rcases ending with ⟨error, structural, untouched⟩ | ⟨report, finished⟩ |
      ⟨entries, listed, entry, found, isDump, stopped⟩
    · rw [show handled = _ from untouched] at failed
      cases failed
      cases structural place text rfl
    · cases failed.symm.trans finished
    · obtain ⟨reason, result⟩ := stopped.result_eq
      cases failed.symm.trans result
      exact ⟨entries, listed, entry, found, isDump, rfl, stopped⟩
  · intro entries inventory metadata listed sorted decoded
    obtain ⟨finished | ⟨entry, -, -, stopped⟩, placed⟩ :=
      outcome_of_decoded listed sorted decoded handler options state
    · exact ⟨.inl finished, placed⟩
    · exact ⟨.inr ⟨_, stopped.result_eq⟩, placed⟩

end Handled

end LinkArchive
