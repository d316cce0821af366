import LinkArchive.Proofs.Dump.CutOff
import LinkArchive.Proofs.Release.Records

/-!
# Dumps with other digests than expected

The digests of a dump are judged behind its last line. So a dump that lacks one is refused for that,
wherever on the way the verdict is met, and every line of it that has an end was told before:
`Handled.refused_of_walk`.
-/

namespace LinkArchive

open Dump

/-! ### The content of a dump that is cut off -/

namespace DumpContent

/-- A failure behind a dump ends its content, which has all lines that have an end. -/
theorem ofReader_of_failure {source rest : Source} {bytes : Bytes} {error : ReadError}
    {fields : List MetaField} (data : source.readToEnd = (bytes, some error, rest))
    (formed : fieldsOfLines (metaLines 1 (linesOf bytes)) = .ok fields) (grammar : Grammar)
    (options : ReaderOptions) (bytesRead : Validator) :
    let content := ofReader (DumpReader.ofSource source grammar options) bytesRead
    content.ending = .error (.ofReadError error) ∧
      content.items = DumpReader.itemsOf grammar options (endedBody bytes) ∧
      (content.items = [] ∨ content.header = fields) := by
  intro content
  rcases DumpReader.cutOff_of_failure data formed grammar options with
    ⟨failed, none⟩ | ⟨after, number, found, items⟩
  · have lost : content = ofHeader (.io error) := by
      rcases found : (DumpReader.ofSource source grammar options).header with ⟨result, after⟩
      rw [found] at failed
      obtain rfl : result = .error (.io error) := failed
      simp only [content, ofReader, found]
    rw [lost, none]
    exact ⟨rfl, rfl, Or.inl rfl⟩
  · have read : content = {
        header := fields
        items := DumpReader.itemsOf grammar options (endedBody bytes)
        ending := .error (.ofReadError error) } := by
      have dropped : (DumpReader.failureItems number (some error)).filter
          (·.failure?.isNone) = [] := rfl
      simp only [content, ofReader, found, items, endingOf, List.findSome?_append,
        findSome?_itemsOf, Option.none_or, failure?_failureItems, List.filter_append,
        filter_itemsOf, dropped, List.append_nil]
    rw [read]
    exact ⟨rfl, rfl, Or.inr rfl⟩

/-- Bytes that do not pass are expanded and read all the same, with the verdict behind them. -/
theorem ofSource_of_mismatch {source rest : Source} {bytes content : Bytes} {digests : DigestSet}
    {mismatch : Mismatch} {fields : List MetaField} {compression : Compression}
    (data : source.readToEnd = (bytes, none, rest))
    (found : digests.mismatch? bytes = some mismatch)
    (expanded : compression.expand bytes = ⟨content, .complete⟩)
    (formed : fieldsOfLines (metaLines 1 (linesOf content)) = .ok fields) (width : Option Nat)
    (requireSeparator : Bool) :
    let read := ofSource source digests compression width requireSeparator
    read.ending = .error (.checksum (.mismatch mismatch)) ∧
      read.items = DumpReader.itemsOf (.fixed width) { requireSeparator } (endedBody content) ∧
      (read.items = [] ∨ read.header = fields) := by
  have final : ∀ error ∈ some (VerifyError.mismatch mismatch).toReadError,
      error.isInterrupted = false := by
    intro error same
    obtain rfl := Option.some.inj same
    exact isInterrupted_mismatch mismatch
  have records := Expansion.readToEnd_source (compression.expand bytes) final
  rw [expanded] at records
  have read := ofReader_of_failure records formed (.fixed width) { requireSeparator }
  rw [ofSource_eq_ofReader compression width requireSeparator data, found, Option.map_some,
    expanded]
  exact read _

end DumpContent

/-! ### Lines that have an end -/

/-- The lines of a dump that have an end, header and blank lines aside. -/
def finishedLines (content : Bytes) : List (Bytes × Nat) :=
  (writtenLines content).filter (·.2 ≤ lineEnds content)

/-- At most the last line of a dump is not finished. -/
theorem writtenLines_eq_append (content : Bytes) :
    ∃ last, writtenLines content = finishedLines content ++ last ∧ last.length ≤ 1 := by
  obtain ⟨last, body, short⟩ := bodyOf_eq_endedBody_append content
  refine ⟨last.filter (!·.1.isEmpty), ?_, ?_⟩
  · have finished : finishedLines content = (endedBody content).filter (!·.1.isEmpty) := by
      rw [finishedLines, writtenLines, endedBody, List.filter_filter, List.filter_filter]
      congr 1
      funext line
      exact Bool.and_comm _ _
    rw [writtenLines, body, List.filter_append, finished]
  · exact Nat.le_trans (List.length_filter_le _ _) short

theorem itemsOf_endedBody (options : WalkOptions) (width : Option Nat) (content : Bytes) :
    DumpReader.itemsOf (.fixed width) { requireSeparator := options.requireSeparator }
      (endedBody content) = (finishedLines content).map (options.itemOf width) := by
  simp only [DumpReader.itemsOf, finishedLines, writtenLines, endedBody, isSkipped_eq,
    List.filter_filter, Bool.and_comm]
  rfl

/-! ### What is told of a refused dump -/

/-- A dump whose bytes can be read and expand to the whole of `content`, with these header fields,
but lack one of the digests expected of them. -/
structure Zip.Entry.Mismatched (entry : Zip.Entry) (options : WalkOptions) (width : Option Nat)
    (bytes content : Bytes) (fields : List MetaField) : Prop where
  holds : entry.Holds bytes
  differs : ∃ algorithm digest,
    (options.digestsFor entry.name entry.dumpBytes.2).get? algorithm = some digest ∧
      algorithm.digest bytes ≠ digest
  expands : ∃ compression, entry.kind = .dump compression width ∧
    compression.expand bytes = ⟨content, .complete⟩
  formed : fieldsOfLines (metaLines 1 (linesOf content)) = .ok fields

/-- The options that leave all digests alone. -/
def WalkOptions.trusting (options : WalkOptions) : WalkOptions :=
  { options with verifyCrc32 := false, memberDigests := [] }

/-- What is told of a dump with a digest that differs: it is refused for the first such digest, and
every finished line is settled, be it a record with its context or a diagnostic. -/
structure Refused (options : WalkOptions) (expected : DigestSet) (context : LinkContext)
    (bytes content : Bytes) (report : MemberReport) (events : List Event) : Prop where
  name_eq : report.name = context.place.member
  refused : ∃ mismatch, expected.FirstMismatch bytes mismatch ∧
    report.failure = some ⟨context.place, .checksum (.mismatch mismatch)⟩
  isChecksum : ∀ error ∈ report.failure, (ReleaseError.member error).isChecksum = true
  calls_eq : Event.calls events = (finishedLines content).filterMap fun line =>
    (options.itemOf context.width line).result.toOption.map fun record =>
      (record, { context with line := line.2 })
  settled_eq : Event.settledLines events = (finishedLines content).map (·.2)
  links_eq : report.links = (Event.calls events).length

/-- Whoever does not listen to failures of dumps hears of one that failed what it would hear
otherwise. -/
theorem filterMap_of_failed {β : Type} {pick : Event → Option β}
    (unheard : ∀ error, pick (.diagnostic (.memberFailed error)) = none) (options : WalkOptions)
    (context : LinkContext) (lines : List (Bytes × Nat)) (report : MemberReport) :
    ((lines.map (options.itemOf context.width)).flatMap (Event.ofItem context) ++
        Event.ofReport report).filterMap pick =
      (eventsOf options context lines report).filterMap pick := by
  have last : (Event.ofReport report).filterMap pick = [.memberDone report].filterMap pick := by
    unfold Event.ofReport
    cases report.failure with
    | none => rfl
    | some error => simp [unheard]
  rw [eventsOf, List.filterMap_append, List.filterMap_append, last]

theorem refused_ofDump {options : WalkOptions} {expected : DigestSet} {bytes content : Bytes}
    {width : Option Nat} {fields : List MetaField} {read : DumpContent} {mismatch : Mismatch}
    (first : expected.FirstMismatch bytes mismatch)
    (ending : read.ending = .error (.checksum (.mismatch mismatch)))
    (items : read.items = (finishedLines content).map (options.itemOf width))
    (header : read.items = [] ∨ read.header = fields) (metadata : ReleaseMetadata)
    (place : Location) :
    let came := Walk.ofDump metadata place width read
    Refused options expected { metadata, header := fields, width, place } bytes content came.1
      came.2 := by
  intro came
  let context : LinkContext := { metadata, header := fields, width, place }
  have events : came.2 = (((finishedLines content).map (options.itemOf width)).flatMap
      (Event.ofItem context)) ++ Event.ofReport came.1 := by
    rw [← items]
    rcases header with none | same
    · simp only [came, Walk.ofDump, none, List.flatMap_nil]
    · simp only [came, Walk.ofDump, same, context]
  have failure : came.1.failure = some ⟨place, .checksum (.mismatch mismatch)⟩ := by
    simp only [came, Walk.ofDump, MemberReport.ofContent, ending]
    rfl
  have calls : Event.calls came.2 =
      Event.calls (eventsOf options context (finishedLines content) came.1) := by
    rw [events]
    exact filterMap_of_failed (fun _ => rfl) options context _ came.1
  have settled : Event.settledLines came.2 =
      Event.settledLines (eventsOf options context (finishedLines content) came.1) := by
    rw [events]
    exact filterMap_of_failed (fun _ => rfl) options context _ came.1
  refine ⟨rfl, ⟨mismatch, first, failure⟩, ?_, calls.trans (calls_eventsOf ..),
    settled.trans (settledLines_eventsOf ..), ?_⟩
  · intro error failed
    rw [failure] at failed
    obtain rfl := Option.some.inj failed
    rfl
  · rw [calls, length_calls_eventsOf]
    simp only [came, Walk.ofDump, MemberReport.ofContent, items]
    rfl

namespace Zip.Entry.Mismatched

variable {entry : Zip.Entry} {options : WalkOptions} {width : Option Nat}
variable {bytes content : Bytes} {fields : List MetaField}

theorem told (h : entry.Mismatched options width bytes content fields) (container : String)
    (metadata : ReleaseMetadata) :
    let came := Walk.ofEntry container metadata options entry
    Refused options (options.digestsFor entry.name entry.dumpBytes.2)
      { metadata, header := fields, width, place := ⟨container, entry.name⟩ } bytes content
      came.1 came.2 := by
  obtain ⟨source, rest, opened, data⟩ := h.holds
  obtain ⟨compression, kind, expanded⟩ := h.expands
  obtain ⟨algorithm, digest, known, differs⟩ := h.differs
  cases found : (options.digestsFor entry.name entry.dumpBytes.2).mismatch? bytes with
  | none => exact absurd (DigestSet.mismatch?_eq_none.mp found algorithm digest known) differs
  | some mismatch =>
    obtain ⟨ending, items, header⟩ := DumpContent.ofSource_of_mismatch data found expanded h.formed
      width options.requireSeparator
    rw [itemsOf_endedBody] at items
    rw [Walk.ofEntry_of_dump kind, dump_of_opened opened]
    exact refused_ofDump (DigestSet.firstMismatch_of_mismatch? found) ending items header metadata
      ⟨container, entry.name⟩

theorem whole_of_trusting (h : entry.Mismatched options width bytes content fields) :
    entry.Whole options.trusting width bytes content fields where
  holds := h.holds
  passes := by
    intro algorithm digest known
    have none :
        (options.trusting.digestsFor entry.name entry.dumpBytes.2).get? algorithm = none := by
      unfold WalkOptions.digestsFor WalkOptions.ownDigests WalkOptions.trusting
      cases entry.dumpBytes.2 <;> cases algorithm <;> rfl
    rw [none] at known
    cases known
  expands := h.expands
  formed := h.formed

/-- Without digests at most one record more is told: that of a last line without an end. -/
theorem calls_of_trusting (h : entry.Mismatched options width bytes content fields)
    (container : String) (metadata : ReleaseMetadata) :
    ∃ lost, Event.calls (Walk.ofEntry container metadata options.trusting entry).2 =
      Event.calls (Walk.ofEntry container metadata options entry).2 ++ lost ∧ lost.length ≤ 1 := by
  obtain ⟨last, lines, short⟩ := writtenLines_eq_append content
  have all := (h.whole_of_trusting.told container metadata).calls_eq
  rw [lines, List.filterMap_append] at all
  have finished := (h.told container metadata).calls_eq
  refine ⟨_, all.trans (congrArg (· ++ _) finished.symm), ?_⟩
  exact Nat.le_trans (List.length_filterMap_le _ _) short

end Zip.Entry.Mismatched

namespace Handled

/-- A dump that lacks a digest is refused for the first that it lacks, and all its finished lines
are told, so that at most one record is lost that is told where nobody asks for digests. -/
theorem refused_of_walk {σ : Type} {handler : Handler σ} {container : String} {file : Bytes}
    {entries : List Zip.Entry} {inventory : Inventory} {metadata : ReleaseMetadata}
    (listed : Zip.entries? file = some entries)
    (sorted : Inventory.ofEntries container entries = .ok inventory)
    (decoded : inventory.metadata.metadata = .ok metadata) (tireless : handler.Tireless)
    (options : WalkOptions) (state : σ) :
    ∃ dumps : List (MemberReport × List Event),
      ofWalk handler (Walk.ofZip container options file) state = {
        result := .ok {
          container
          metadata
          members := dumps.map (·.1)
          skipped := inventory.skipped.map (·.name) }
        events := dumps.flatMap (·.2)
        state := (dumps.flatMap fun came => Event.calls came.2).foldl
          (fun state call => (handler call.1 call.2 state).2) state } ∧
      List.Forall₂ (fun entry came => ∀ width bytes content fields,
          Zip.Entry.Mismatched entry options width bytes content fields →
          Refused options (options.digestsFor entry.name entry.dumpBytes.2)
            { metadata, header := fields, width, place := ⟨container, entry.name⟩ } bytes content
            came.1 came.2 ∧
          ∃ lost, Event.calls (Walk.ofEntry container metadata options.trusting entry).2 =
            Event.calls came.2 ++ lost ∧ lost.length ≤ 1)
        (entries.filter (·.kind.isDump)) dumps := by
  refine ⟨_, ofZip_of_tireless listed sorted decoded tireless options state, ?_⟩
  rw [List.forall₂_map_right_iff, List.forall₂_same]
  intro entry _ width bytes content fields mismatched
  exact ⟨mismatched.told container metadata, mismatched.calls_of_trusting container metadata⟩

/-- The digests of the first dump are given, but its SHA-1 is that of other bytes. -/
def otherOptions : WalkOptions :=
  { smallOptions with
    memberDigests := smallOptions.memberDigests.map fun (name, digests) =>
      (name, { digests with sha1 := some ⟨List.replicate 20 0, rfl⟩ }) }

theorem refused_of_smallRelease :
    ∃ entries inventory metadata, Zip.entries? smallRelease = some entries ∧
      Inventory.ofEntries "c" entries = .ok inventory ∧
      inventory.metadata.metadata = .ok metadata ∧ counting.Tireless ∧
      ∃ (entry : Zip.Entry) (first : MemberReport × List Event)
        (others : List (MemberReport × List Event)),
        entry.Mismatched otherOptions (some 3) smallDump smallContent [⟨"V", "1"⟩] ∧
        (ofWalk counting (Walk.ofZip "c" otherOptions smallRelease) 0).events =
          (first :: others).flatMap (·.2) ∧
        Refused otherOptions (otherOptions.digestsFor entry.name entry.dumpBytes.2)
          ⟨metadata, [⟨"V", "1"⟩], some 3, ⟨"c", "3.txt.gz"⟩, 0⟩ smallDump smallContent
          first.1 first.2 := by
  obtain ⟨entries, inventory, metadata, listed, sorted, decoded⟩ := sorted_smallRelease
  obtain ⟨known, entry, rest, also, dumped, name, whole⟩ := whole_smallDump
  obtain rfl : entries = known := Option.some.inj (listed.symm.trans also)
  have mismatched : entry.Mismatched otherOptions (some 3) smallDump smallContent
      [⟨"V", "1"⟩] := by
    refine ⟨whole.holds, ⟨.sha1, List.replicate 20 0, ?_, by decide +kernel⟩, whole.expands,
      whole.formed⟩
    rw [name]
    cases entry.dumpBytes.2 <;> rfl
  obtain ⟨dumps, walked, told⟩ := refused_of_walk listed sorted decoded
    (fun _ _ _ => rfl : counting.Tireless) otherOptions 0
  rw [dumped] at told
  cases told with
  | @cons _ first _ others heard =>
    obtain ⟨refused, -⟩ := heard _ _ _ _ mismatched
    have place : (⟨"c", entry.name⟩ : Location) = ⟨"c", "3.txt.gz"⟩ := by rw [name]
    rw [place] at refused
    exact ⟨entries, inventory, metadata, listed, sorted, decoded, fun _ _ _ => rfl, entry, first,
      others, mismatched, congrArg Handled.events walked, refused⟩

end Handled

end LinkArchive
