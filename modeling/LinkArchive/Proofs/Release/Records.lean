import LinkArchive.Proofs.Release.Dump
import LinkArchive.Proofs.Release.Walk
import Mathlib.Data.List.Forall2

/-!
# The records of a walk

A dump that is sound from end to end tells its handler of every record in it, line by line, and of
each line that is none it makes a diagnostic: `Told`. A walk goes through its dumps one after the
other, so what it tells is what they tell in the order of the container: `Handled.records_of_walk`.
-/

namespace LinkArchive

open Dump

/-! ### Kinds of events -/

namespace Event

def recordErrors (events : List Event) : List (Location × Nat × DumpError) :=
  events.filterMap fun
    | .diagnostic (.recordError place line error) => some (place, line, error)
    | _ => none

def warnings (events : List Event) : List (Location × Warning) :=
  events.filterMap fun
    | .diagnostic (.warning place flaw) => some (place, flaw)
    | _ => none

/-- The numbers of the lines that were settled by an event, as a record or as none. -/
def settledLines (events : List Event) : List Nat :=
  events.filterMap fun
    | .link _ context => some context.line
    | .diagnostic (.recordError _ line _) => some line
    | _ => none

variable {β : Type} {pick : Event → Option β}

/-- Whoever does not listen to warnings and ends of dumps hears of each item once. -/
theorem filterMap_ofItems (deaf : ∀ place flaw, pick (.diagnostic (.warning place flaw)) = none)
    (context : LinkContext) (items : List DumpReader.Item) :
    (items.flatMap (ofItem context)).filterMap pick =
      items.filterMap fun item =>
        pick (ofResult { context with line := item.number } item.result) := by
  induction items with
  | nil => rfl
  | cons item items ih =>
    have unheard : (item.warnings.map fun flaw =>
        diagnostic (.warning context.place flaw)).filterMap pick = [] := by
      rw [List.filterMap_map]
      apply List.filterMap_eq_nil_iff.mpr
      intro flaw _
      exact deaf context.place flaw
    rw [List.flatMap_cons, List.filterMap_append, ih, ofItem, List.filterMap_append, unheard]
    simp only [List.nil_append, List.filterMap_cons, List.filterMap_nil]
    split <;> rfl

theorem warnings_ofItems (context : LinkContext) (items : List DumpReader.Item) :
    warnings (items.flatMap (ofItem context)) =
      items.flatMap fun item => item.warnings.map (context.place, ·) := by
  induction items with
  | nil => rfl
  | cons item items ih =>
    have last : warnings [ofResult { context with line := item.number } item.result] = [] := by
      cases item.result <;> rfl
    have first : warnings (item.warnings.map fun flaw =>
        diagnostic (.warning context.place flaw)) = item.warnings.map (context.place, ·) := by
      simp [warnings, List.filterMap_map]
    unfold warnings at *
    rw [List.flatMap_cons, List.filterMap_append, ih, ofItem, List.filterMap_append, first, last,
      List.append_nil]
    rfl

end Event

/-! ### What a sound dump tells -/

/-- The lines of a dump's body that are not blank, with their numbers. -/
def writtenLines (content : Bytes) : List (Bytes × Nat) :=
  (bodyOf (linesOf content)).filter (!·.1.isEmpty)

/-- A dump whose bytes can be read, have the digests expected of them and expand to the whole of
`content`, with these header fields. -/
structure Zip.Entry.Whole (entry : Zip.Entry) (options : WalkOptions) (width : Option Nat)
    (bytes content : Bytes) (fields : List MetaField) : Prop where
  holds : entry.Holds bytes
  passes : ∀ algorithm digest,
    (options.digestsFor entry.name entry.dumpBytes.2).get? algorithm = some digest →
      algorithm.digest bytes = digest
  expands : ∃ compression, entry.kind = .dump compression width ∧
    compression.expand bytes = ⟨content, .complete⟩
  formed : fieldsOfLines (metaLines 1 (linesOf content)) = .ok fields

theorem whole_smallDump : ∃ entries entry others, Zip.entries? smallRelease = some entries ∧
    entries.filter (·.kind.isDump) = entry :: others ∧ entry.name = "3.txt.gz" ∧
    entry.Whole smallOptions (some 3) smallDump smallContent [⟨"V", "1"⟩] := by
  have evaluated : ((Zip.entries? smallRelease).bind fun entries =>
      (entries.filter (·.kind.isDump)).head?.map fun entry =>
        (entry.name, entry.kind, entry.stored, entry.crc32, entry.raw)) =
      some ("3.txt.gz", .dump .gzip (some 3), true, Digest.Crc32.checksum smallDump,
        [.chunk smallDump]) := by
    decide +kernel
  obtain ⟨entries, listed, found⟩ := Option.bind_eq_some_iff.mp evaluated
  obtain ⟨entry, first, parts⟩ := Option.map_eq_some_iff.mp found
  obtain ⟨others, dumps⟩ := List.head?_eq_some_iff.mp first
  simp only [Prod.mk.injEq] at parts
  obtain ⟨name, kind, stored, crc32, raw⟩ := parts
  have bytes : entry.dumpBytes =
      (some [.chunk smallDump], some (Digest.Crc32.checksum smallDump)) := by
    rw [entry.dumpBytes_eq, stored, crc32, raw]
    rfl
  refine ⟨entries, entry, others, listed, dumps, name, ?_, ?_, ?_, ?_⟩
  · refine ⟨[.chunk smallDump], [], ?_, by decide +kernel⟩
    rw [stored, raw]
    rfl
  · rw [name, bytes]
    exact DigestSet.mismatch?_eq_none.mp (by decide +kernel)
  · exact ⟨.gzip, kind, by decide +kernel⟩
  · have fields : (fieldsOfLines (metaLines 1 (linesOf smallContent))).toOption =
        some [⟨"V", "1"⟩] := by
      decide +kernel
    cases parsed : fieldsOfLines (metaLines 1 (linesOf smallContent)) with
    | error error =>
      rw [parsed] at fields
      cases fields
    | ok found =>
      rw [parsed] at fields
      cases fields
      rfl

def WalkOptions.itemOf (options : WalkOptions) (width : Option Nat) (line : Bytes × Nat) :
    DumpReader.Item :=
  DumpReader.itemOf (.fixed width) { requireSeparator := options.requireSeparator } line

/-- What is told of a dump: every line that is not blank is settled by one event, in order, be it a
record with its context or a diagnostic. -/
structure Told (options : WalkOptions) (context : LinkContext) (bytes content : Bytes)
    (report : MemberReport) (events : List Event) : Prop where
  calls_eq : Event.calls events = (writtenLines content).filterMap fun line =>
    (options.itemOf context.width line).result.toOption.map fun record =>
      (record, { context with line := line.2 })
  recordErrors_eq : Event.recordErrors events = (writtenLines content).filterMap fun line =>
    match (options.itemOf context.width line).result with
    | .ok _ => none
    | .error error => some (context.place, line.2, error)
  warnings_eq : Event.warnings events = (writtenLines content).flatMap fun line =>
    (options.itemOf context.width line).warnings.map (context.place, ·)
  settled_eq : Event.settledLines events = (writtenLines content).map (·.2)
  ordered : (Event.settledLines events).Pairwise (· < ·)
  report_eq : report = {
    name := context.place.member
    width := context.width
    header := context.header
    links := (Event.calls events).length
    recordErrors := (Event.recordErrors events).length
    warnings := (Event.warnings events).length
    bytes := bytes.length
    failure := none }

theorem writtenLines_ordered (content : Bytes) :
    ((writtenLines content).map (·.2)).Pairwise (· < ·) := by
  have numbers : ((linesOf content).zipIdx 1).map (·.2) = List.range' 1 (linesOf content).length :=
    List.zipIdx_map_snd 1 (linesOf content)
  have part : ((writtenLines content).map (·.2)).Sublist
      (((linesOf content).zipIdx 1).map (·.2)) :=
    (List.filter_sublist.trans (List.drop_sublist _ _)).map _
  rw [numbers] at part
  exact List.Pairwise.sublist part List.pairwise_lt_range'

theorem isSkipped_eq (options : WalkOptions) (line : Bytes × Nat) :
    DumpReader.isSkipped { requireSeparator := options.requireSeparator } line = line.1.isEmpty :=
  Bool.and_true _

theorem items_eq (options : WalkOptions) (width : Option Nat) (content : Bytes) :
    (Reading.ofBytes (.fixed width) { requireSeparator := options.requireSeparator }
      content).items = (writtenLines content).map (options.itemOf width) := by
  simp only [Reading.ofBytes, DumpReader.itemsOf, writtenLines, isSkipped_eq]
  rfl

section Whole

variable (options : WalkOptions) (context : LinkContext) (lines : List (Bytes × Nat))
variable (report : MemberReport)

def eventsOf : List Event :=
  (lines.map (options.itemOf context.width)).flatMap (Event.ofItem context) ++ [.memberDone report]

theorem filterMap_eventsOf {β : Type} {pick : Event → Option β}
    (deaf : ∀ place flaw, pick (.diagnostic (.warning place flaw)) = none)
    (silent : ∀ report, pick (.memberDone report) = none) :
    (eventsOf options context lines report).filterMap pick = lines.filterMap fun line =>
      pick (Event.ofResult { context with line := line.2 }
        (options.itemOf context.width line).result) := by
  rw [eventsOf, List.filterMap_append, Event.filterMap_ofItems deaf, List.filterMap_map,
    List.filterMap_cons_none (silent report), List.filterMap_nil, List.append_nil]
  rfl

theorem calls_eventsOf : Event.calls (eventsOf options context lines report) =
    lines.filterMap fun line =>
      (options.itemOf context.width line).result.toOption.map fun record =>
        (record, { context with line := line.2 }) := by
  rw [Event.calls, filterMap_eventsOf _ _ _ _ (fun _ _ => rfl) (fun _ => rfl)]
  congr 1
  funext line
  cases (options.itemOf context.width line).result <;> rfl

theorem recordErrors_eventsOf : Event.recordErrors (eventsOf options context lines report) =
    lines.filterMap fun line =>
      match (options.itemOf context.width line).result with
      | .ok _ => none
      | .error error => some (context.place, line.2, error) := by
  rw [Event.recordErrors, filterMap_eventsOf _ _ _ _ (fun _ _ => rfl) (fun _ => rfl)]
  congr 1
  funext line
  cases (options.itemOf context.width line).result <;> rfl

theorem settledLines_eventsOf : Event.settledLines (eventsOf options context lines report) =
    lines.map (·.2) := by
  rw [Event.settledLines, filterMap_eventsOf _ _ _ _ (fun _ _ => rfl) (fun _ => rfl),
    ← List.filterMap_eq_map]
  congr 1
  funext line
  cases (options.itemOf context.width line).result <;> rfl

theorem warnings_eventsOf : Event.warnings (eventsOf options context lines report) =
    lines.flatMap fun line =>
      (options.itemOf context.width line).warnings.map (context.place, ·) := by
  have last : Event.warnings [.memberDone report] = [] := rfl
  have items := Event.warnings_ofItems context (lines.map (options.itemOf context.width))
  unfold Event.warnings at *
  rw [eventsOf, List.filterMap_append, items, last, List.append_nil, List.flatMap_map]

theorem length_calls_eventsOf : (Event.calls (eventsOf options context lines report)).length =
    (lines.map (options.itemOf context.width)).countP (·.isRecord) := by
  rw [calls_eventsOf, List.length_filterMap_eq_countP, List.countP_map]
  congr 1
  funext line
  simp only [Function.comp_apply, DumpReader.Item.isRecord]
  cases (options.itemOf context.width line).result <;> rfl

theorem length_recordErrors_eventsOf :
    (Event.recordErrors (eventsOf options context lines report)).length =
      (lines.map (options.itemOf context.width)).countP (!·.isRecord) := by
  rw [recordErrors_eventsOf, List.length_filterMap_eq_countP, List.countP_map]
  congr 1
  funext line
  simp only [Function.comp_apply, DumpReader.Item.isRecord]
  cases (options.itemOf context.width line).result <;> rfl

theorem length_warnings_eventsOf : (Event.warnings (eventsOf options context lines report)).length =
    ((lines.map (options.itemOf context.width)).flatMap (·.warnings)).length := by
  rw [warnings_eventsOf, List.flatMap_map, List.length_flatMap, List.length_flatMap]
  simp only [List.length_map]

end Whole

theorem told_ofDump (options : WalkOptions) (metadata : ReleaseMetadata) (place : Location)
    (width : Option Nat) (bytes content : Bytes) (fields : List MetaField) :
    let came := Walk.ofDump metadata place width {
      header := fields
      items := (Reading.ofBytes (.fixed width) { requireSeparator := options.requireSeparator }
        content).items
      ending := .ok bytes.length }
    Told options { metadata, header := fields, width, place } bytes content came.1 came.2 := by
  intro came
  let context : LinkContext := { metadata, header := fields, width, place }
  have events : came.2 = eventsOf options context (writtenLines content) came.1 := by
    simp only [came, items_eq]
    rfl
  rw [events]
  refine ⟨calls_eventsOf .., recordErrors_eventsOf .., warnings_eventsOf ..,
    settledLines_eventsOf .., ?_, ?_⟩
  · rw [settledLines_eventsOf]
    exact writtenLines_ordered content
  · rw [length_calls_eventsOf, length_recordErrors_eventsOf, length_warnings_eventsOf]
    simp only [came, items_eq]
    rfl

/-! ### Walks -/

theorem Zip.Entry.Whole.told {entry : Zip.Entry} {options : WalkOptions} {width : Option Nat}
    {bytes content : Bytes} {fields : List MetaField}
    (h : entry.Whole options width bytes content fields) (container : String)
    (metadata : ReleaseMetadata) :
    let came := Walk.ofEntry container metadata options entry
    Told options { metadata, header := fields, width, place := ⟨container, entry.name⟩ } bytes
      content came.1 came.2 := by
  obtain ⟨source, rest, opened, data⟩ := h.holds
  obtain ⟨compression, kind, expanded⟩ := h.expands
  have passes := DigestSet.mismatch?_eq_none.mpr h.passes
  have read := DumpContent.ofSource_of_verified compression width options.requireSeparator data
    passes
  have finished : (Validator.ofSource source (options.digestsFor entry.name
      entry.dumpBytes.2)).finish = .ok bytes.length := by
    rw [Validator.finish_ofSource _ data, DigestSet.judge, passes]
  have records : ((compression.expand bytes).source none).readToEnd = (content, none, []) := by
    rw [Expansion.readToEnd_source _ (by simp), expanded]
    rfl
  rw [DumpContent.ofReader_of_reading records h.formed finished] at read
  intro came
  simp only [came, Walk.ofEntry_of_dump kind, Zip.Entry.dump_of_opened opened, read]
  exact told_ofDump options metadata ⟨container, entry.name⟩ width bytes content fields

namespace Handled

/-- A handler that never fails hears of the records of all dumps, one dump after the other in the
order of the container, and of every whole dump it hears what is `Told` of it. -/
theorem records_of_walk {σ : Type} {handler : Handler σ} {container : String}
    {file : Bytes} {entries : List Zip.Entry} {inventory : Inventory}
    {metadata : ReleaseMetadata} (listed : Zip.entries? file = some entries)
    (sorted : Inventory.ofEntries container entries = .ok inventory)
    (decoded : inventory.metadata.metadata = .ok metadata)
    (tireless : handler.Tireless)
    (options : WalkOptions) (state : σ) :
    ∃ dumps : List (MemberReport × List Event),
      ofWalk handler (Walk.ofZip container options file) state = {
        result := .ok {
          container
          metadata
          members := dumps.map (·.1)
          skipped := inventory.skipped.map (·.name) }
        events := dumps.flatMap (·.2)
        state := (dumps.flatMap fun came => Event.calls came.2).foldl
          (fun state call => (handler call.1 call.2 state).2) state } ∧
      List.Forall₂ (fun entry came => ∀ width bytes content fields,
          Zip.Entry.Whole entry options width bytes content fields →
          Told options { metadata, header := fields, width, place := ⟨container, entry.name⟩ } bytes
            content came.1 came.2)
        (entries.filter (·.kind.isDump)) dumps := by
  have walk : Walk.ofZip container options file =
      .ok (Walk.ofInventory container options inventory metadata) :=
    Walk.ofZip_eq_ok.mpr ⟨entries, inventory, metadata, listed, sorted, decoded, rfl⟩
  refine ⟨inventory.dumps.map (Walk.ofEntry container metadata options), ?_, ?_⟩
  · rw [walk, ofWalk_of_tireless tireless]
    simp only [Walk.ofInventory, Event.calls, List.filterMap_flatMap]
  · rw [← Inventory.dumps_of_ofEntries sorted]
    generalize inventory.dumps = dumps
    induction dumps with
    | nil => exact .nil
    | cons entry others ih =>
      refine .cons ?_ ih
      intro width bytes content fields whole
      exact whole.told container metadata

theorem records_of_smallRelease :
    ∃ entries inventory metadata, Zip.entries? smallRelease = some entries ∧
      Inventory.ofEntries "c" entries = .ok inventory ∧
      inventory.metadata.metadata = .ok metadata ∧
      counting.Tireless ∧
      ∃ (first : MemberReport × List Event) (others : List (MemberReport × List Event)),
        (ofWalk counting (Walk.ofZip "c" smallOptions smallRelease) 0).events =
          (first :: others).flatMap (·.2) ∧
        (ofWalk counting (Walk.ofZip "c" smallOptions smallRelease) 0).state = 3 ∧
        Told smallOptions ⟨metadata, [⟨"V", "1"⟩], some 3, ⟨"c", "3.txt.gz"⟩, 0⟩ smallDump
          smallContent first.1 first.2 := by
  have walks : (Walk.ofZip "c" smallOptions smallRelease).toOption.isSome = true := by
    decide +kernel
  have counted : (ofWalk counting (Walk.ofZip "c" smallOptions smallRelease) 0).state = 3 := by
    decide +kernel
  cases walk : Walk.ofZip "c" smallOptions smallRelease with
  | error error =>
    rw [walk] at walks
    cases walks
  | ok whole =>
    obtain ⟨entries, inventory, metadata, listed, sorted, decoded, -⟩ := Walk.ofZip_eq_ok.mp walk
    obtain ⟨known, entry, rest, also, dumped, name, isWhole⟩ := whole_smallDump
    obtain rfl : entries = known := Option.some.inj (listed.symm.trans also)
    obtain ⟨dumps, walked, told⟩ := records_of_walk listed sorted decoded
      (fun _ _ _ => rfl : counting.Tireless) smallOptions 0
    rw [dumped] at told
    cases told with
    | cons first others =>
      have heard := first _ _ _ _ isWhole
      rw [name] at heard
      rw [← walk]
      exact ⟨entries, inventory, metadata, listed, sorted, decoded, fun _ _ _ => rfl, _, _,
        congrArg Handled.events walked, counted, heard⟩

end Handled

end LinkArchive
