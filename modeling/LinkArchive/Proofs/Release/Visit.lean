import LinkArchive.Proofs.Dump.Step
import LinkArchive.Proofs.Release.Dump
import LinkArchive.Proofs.Release.Handled
import LinkArchive.Release.Visit

/-!
# What visits come to

A visit goes through the same events as a walk that is known beforehand, and its handler takes the
records among them: `Visit.release_eq_ofWalk`. The counts that a visit keeps are those of the items
that its reader gives.
-/

namespace LinkArchive

/-! ### Records -/

/-- The report with some more items counted. -/
def MemberReport.count (report : MemberReport) (items : List DumpReader.Item) : MemberReport :=
  { report with
    links := report.links + items.countP (·.isRecord)
    recordErrors := report.recordErrors + items.countP (!·.isRecord)
    warnings := report.warnings + (items.flatMap (·.warnings)).length }

/-- Counting can stop between any two items. -/
theorem MemberReport.count_cons (report : MemberReport) (item : DumpReader.Item)
    (items : List DumpReader.Item) :
    (report.count [item]).count items = report.count (item :: items) := by
  simp only [count, List.countP_cons, List.countP_nil, List.flatMap_cons, List.flatMap_nil,
    List.length_append, List.append_nil, Nat.zero_add, Nat.add_assoc,
    Nat.add_comm (List.countP _ items)]

theorem MemberReport.count_record (report : MemberReport) (number : Nat) (record : LinkRecord)
    (warnings : List Warning) :
    report.count [⟨number, .ok record, warnings⟩] = { report with
      links := report.links + 1
      warnings := report.warnings + warnings.length } := by
  simp [count, DumpReader.Item.isRecord, Except.isOk, Except.toBool]

theorem MemberReport.count_error (report : MemberReport) (number : Nat) (error : DumpError)
    (warnings : List Warning) :
    report.count [⟨number, .error error, warnings⟩] = { report with
      recordErrors := report.recordErrors + 1
      warnings := report.warnings + warnings.length } := by
  simp [count, DumpReader.Item.isRecord, Except.isOk, Except.toBool]

/-- A report with all items counted is the report on them. -/
theorem MemberReport.ended_count (place : Location) (width : Option Nat) (content : DumpContent) :
    (count { name := place.member, width, header := content.header } content.items).ended place
      content.ending = ofContent place width content := by
  rcases content with ⟨header, items, fault | total⟩ <;>
    simp only [count, ended, ofContent, failureOf, Nat.zero_add] <;> rfl

theorem Event.calls_warned (place : Location) (warnings : List Warning) :
    Event.calls (Visit.warned place warnings) = [] := by
  simp [Event.calls, Visit.warned]

theorem Event.calls_ofReport (report : MemberReport) :
    Event.calls (Event.ofReport report) = [] := by
  simp [Event.calls, Event.ofReport]

namespace DumpReader

/-- The items of a reader from where it is, without the failure that they can end with. -/
def items (r : DumpReader) : List Item := r.readAll.1.filter (·.failure?.isNone)

/-- A reader that has read a line goes on with the items behind it, and ends as they end. -/
theorem items_of_line {r next : DumpReader} {line : Bytes}
    (read : r.read = ((Dump.recordOf r.grammar r.options next.lineNumber line).1.map some,
      (Dump.recordOf r.grammar r.options next.lineNumber line).2, next)) (bytes : Validator) :
    r.items = itemOf r.grammar r.options (line, next.lineNumber) :: next.items ∧
      DumpContent.endingOf r.readAll.1 bytes = DumpContent.endingOf next.readAll.1 bytes := by
  have kept := DumpContent.failure?_itemOf r.grammar r.options (line, next.lineNumber)
  have all : r.readAll.1 = itemOf r.grammar r.options (line, next.lineNumber) :: next.readAll.1 :=
    congrArg Prod.fst (readAll_of_result _ read)
  constructor
  · rw [items, all, List.filter_cons_of_pos (by simp [kept])]
    rfl
  · simp only [DumpContent.endingOf, all, List.findSome?_cons, kept]

end DumpReader

namespace Visit

variable {σ : Type} {handler : Handler σ} {context : LinkContext} {bytes : Validator}
variable {reader next : DumpReader} {report : MemberReport} {warnings : List Warning}

theorem records_of_ended (state : σ) (found : reader.read = (.ok none, [], next)) :
    records handler context bytes reader report state =
      .ofResult (.ok (report.ended context.place (bytes.finish.mapError .ofVerifyError)))
        state := by
  rw [records]
  split
  rename_i also
  cases found.symm.trans also
  rfl

theorem records_of_failed (state : σ) {error : ReadError}
    (found : reader.read = (.error (.io error), [], next)) :
    records handler context bytes reader report state =
      .ofResult (.ok (report.ended context.place (.error (.ofReadError error)))) state := by
  rw [records]
  split
  rename_i also
  cases found.symm.trans also
  rfl

/-- A line that is read is told and counted, and then the visit goes on behind it. -/
theorem records_of_line (state : σ) {result : Except DumpError LinkRecord}
    (lasting : ∀ error, result ≠ .error (.io error))
    (found : reader.read = (result.map some, warnings, next)) :
    records handler context bytes reader report state =
      (Handled.ofEvents handler
        (Event.ofItem context ⟨next.lineNumber, result, warnings⟩) state).andThen fun _ =>
        records handler context bytes next
          (report.count [⟨next.lineNumber, result, warnings⟩]) := by
  have told : Handled.ofEvents handler (warned context.place warnings) state =
      (Handled.ofResult (.ok ()) state).behind (warned context.place warnings) :=
    Handled.ofEvents_of_calls (Event.calls_warned context.place warnings) state
  rw [records, Event.ofItem, Handled.ofEvents_append, ← warned, told, Handled.andThen_behind,
    Handled.andThen_ofResult, Handled.andThen_behind]
  split
  rename_i also
  cases result with
  | ok record =>
    cases found.symm.trans also
    rw [MemberReport.count_record]
    refine congrArg (Handled.behind _) ?_
    dsimp only [Except.map, Event.ofResult, Handled.ofEvents]
    rcases handler record { context with line := next.lineNumber } state with ⟨_ | text, after⟩
    · show Handled.behind [_] _ = (Handled.behind [_] (.ofResult (.ok ()) after)).andThen _
      rw [Handled.andThen_behind, Handled.andThen_ofResult]
    · rfl
  | error error =>
    cases found.symm.trans also
    rw [MemberReport.count_error]
    cases error with
    | io error => exact absurd rfl (lasting error)
    | _ => rfl

/-- What a visit can come to next: the end of the records, or a line and the visit behind it. -/
inductive Turn (handler : Handler σ) (context : LinkContext) (bytes : Validator)
    (reader : DumpReader) (report : MemberReport) (state : σ) : Handled σ MemberReport → Prop where
  | ended (items : reader.items = []) :
      Turn handler context bytes reader report state
        (.ofResult (.ok (report.ended context.place
          (DumpContent.endingOf reader.readAll.1 bytes))) state)
  | line {next : DumpReader} {item : DumpReader.Item} (text : Bytes)
      (read : item = DumpReader.itemOf reader.grammar reader.options (text, next.lineNumber))
      (moves : reader.Moves next) (less : next.weight < reader.weight)
      (items : reader.items = item :: next.items)
      (ending : DumpContent.endingOf reader.readAll.1 bytes =
        DumpContent.endingOf next.readAll.1 bytes) :
      Turn handler context bytes reader report state
        ((Handled.ofEvents handler (Event.ofItem context item) state).andThen fun _ =>
          records handler context bytes next (report.count [item]))

theorem turn_records (begun : reader.phase ≠ .start) (state : σ) :
    Turn handler context bytes reader report state
      (records handler context bytes reader report state) := by
  have step := DumpReader.step_read begun
  rcases read : reader.read with ⟨result, warnings, next⟩
  rw [read] at step
  cases step with
  | ended keeps exhausted =>
    have all := congrArg Prod.fst (DumpReader.readAll_of_ended read)
    have ending : DumpContent.endingOf reader.readAll.1 bytes =
        bytes.finish.mapError .ofVerifyError := by
      rw [all]
      rfl
    rw [records_of_ended state read, ← ending]
    exact .ended (by rw [DumpReader.items, all]; rfl)
  | failed error keeps exhausted =>
    have all : reader.readAll.1 = [⟨next.lineNumber, .error (.io error), []⟩] := by
      rw [DumpReader.readAll_of_result (.error (.io error)) read,
        DumpReader.readAll_of_exhausted exhausted]
    have ending : DumpContent.endingOf reader.readAll.1 bytes = .error (.ofReadError error) := by
      rw [all]
      rfl
    rw [records_of_failed state read, ← ending]
    exact .ended (by rw [DumpReader.items, all]; rfl)
  | line text moves =>
    have lasting := DumpContent.recordOf_ne_io reader.grammar reader.options next.lineNumber text
    have less : next.weight < reader.weight := by
      have bound := reader.weight_read
      rw [read] at bound
      apply bound
      cases (Dump.recordOf reader.grammar reader.options next.lineNumber text).1 <;> nofun
    obtain ⟨items, ending⟩ := DumpReader.items_of_line read bytes
    rw [records_of_line state lasting read]
    exact .line text rfl moves less items ending

/-- The records from where a reader is come one after the other, and then the report on them. -/
theorem records_eq_ofEvents (begun : reader.phase ≠ .start) (state : σ) :
    records handler context bytes reader report state =
      (Handled.ofEvents handler (reader.items.flatMap (Event.ofItem context)) state).andThen
        fun _ => .ofResult (.ok ((report.count reader.items).ended context.place
          (DumpContent.endingOf reader.readAll.1 bytes))) := by
  induction left : reader.weight using Nat.strongRecOn generalizing reader report state with
  | ind weight ih =>
    have turn : Turn handler context bytes reader report state _ := turn_records begun state
    generalize records handler context bytes reader report state = handled at turn ⊢
    cases turn with
    | ended items =>
      rw [items]
      rfl
    | @line next _ text _ moves less items ending =>
      have behind : next.phase ≠ .start := by
        rw [moves.phase_eq]
        exact begun
      rw [ending, items, List.flatMap_cons, Handled.ofEvents_append, Handled.andThen_assoc,
        ← MemberReport.count_cons report _ next.items]
      congr 1
      funext _ state
      rw [left] at less
      exact ih next.weight less behind state rfl

theorem dump_eq_ofEvents (reader : DumpReader) (width : Option Nat) (state : σ) :
    let content := DumpContent.ofReader reader bytes
    dump handler context bytes reader { name := context.place.member, width } state =
      (Handled.ofEvents handler (content.items.flatMap
        (Event.ofItem { context with header := content.header })) state).andThen
          fun _ => .ofResult (.ok (.ofContent context.place width content)) := by
  intro content
  have begun := DumpReader.begun_header reader
  rcases found : reader.header with ⟨error | header, next⟩
  · have none : content = .ofHeader error := by
      rw [show content = DumpContent.ofReader reader bytes from rfl, DumpContent.ofReader, found]
    rw [none, dump, found]
    cases error <;> rfl
  · have read : content =
        { header, items := next.items, ending := DumpContent.endingOf next.readAll.1 bytes } := by
      rw [show content = DumpContent.ofReader reader bytes from rfl, DumpContent.ofReader, found]
      rfl
    rw [found] at begun
    rw [read, dump, found]
    dsimp only
    rw [records_eq_ofEvents begun, ← MemberReport.ended_count]

theorem entry_eq_ofEvents {found : Zip.Entry} {compression : Compression} {width : Option Nat}
    (isDump : found.kind = .dump compression width) (container : String)
    (metadata : ReleaseMetadata) (options : WalkOptions) (state : σ) :
    let place : Location := ⟨container, found.name⟩
    let content := found.dump compression width options
    entry handler container metadata options found state =
      (Handled.ofEvents handler (content.items.flatMap
        (Event.ofItem { metadata, header := content.header, width, place })) state).andThen
          fun _ => .ofResult (.ok (.ofContent place width content)) := by
  intro place content
  rcases opened : found.dumpBytes with ⟨_ | source, crc32⟩
  · simp only [entry, isDump, content, Zip.Entry.dump, opened]
    rfl
  · simp only [entry, isDump, content, Zip.Entry.dump, opened, DumpContent.ofSource]
    exact dump_eq_ofEvents _ width state

/-- The report on a dump is told behind its records. -/
theorem member_eq_ofEvents (container : String) (metadata : ReleaseMetadata)
    (options : WalkOptions) (found : Zip.Entry) (state : σ) :
    member handler container metadata options found state =
      (Handled.ofEvents handler (Walk.ofEntry container metadata options found).2 state).andThen
        fun _ => .ofResult (.ok (Walk.ofEntry container metadata options found).1) := by
  have reported : ∀ (report : MemberReport) (state : σ),
      (Handled.ofEvents handler (Event.ofReport report) state).andThen
        (fun _ => .ofResult (.ok report)) = ⟨.ok report, Event.ofReport report, state⟩ := by
    intro report state
    rw [Handled.ofEvents_of_calls (Event.calls_ofReport report), Handled.andThen_behind,
      Handled.andThen_ofResult]
    simp only [Handled.behind, Handled.ofResult, List.append_nil]
  cases kind : found.kind with
  | dump compression width =>
    rw [member, entry_eq_ofEvents kind, Walk.ofEntry_of_dump kind, Walk.ofDump,
      Handled.ofEvents_append, Handled.andThen_assoc, Handled.andThen_assoc]
    congr 1
    funext _ state
    exact (reported _ state).symm
  | metadata =>
    rw [member, entry, Walk.ofEntry, kind]
    exact (reported _ state).symm
  | other =>
    rw [member, entry, Walk.ofEntry, kind]
    exact (reported _ state).symm

theorem inventory_eq_ofWalk (container : String) (options : WalkOptions) (found : Inventory)
    (metadata : ReleaseMetadata) (state : σ) :
    inventory handler container options found metadata state =
      .ofWalk handler (.ok (Walk.ofInventory container options found metadata)) state := by
  rw [inventory, Handled.each_ofEvents _ (member_eq_ofEvents container metadata options),
    Handled.andThen_assoc]
  rfl

/-- A visit is the walk through the release, whatever its handler does. -/
theorem release_eq_ofWalk (handler : Handler σ) (container : String) (options : WalkOptions)
    (file : Bytes) (state : σ) :
    release handler container options file state =
      .ofWalk handler (Walk.ofZip container options file) state := by
  rw [release, Walk.ofZip]
  cases Zip.entries? file with
  | none => rfl
  | some entries =>
    dsimp only
    cases sorted : Inventory.ofEntries container entries with
    | error error =>
      rw [Walk.ofEntries, sorted]
      rfl
    | ok found =>
      rw [Walk.ofEntries_of_inventory sorted]
      cases decoded : found.metadata.metadata with
      | error fault => simp only [decoded]; rfl
      | ok metadata =>
        simp only [decoded, inventory_eq_ofWalk]
        rfl

end Visit

end LinkArchive
