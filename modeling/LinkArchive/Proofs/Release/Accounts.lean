import LinkArchive.Proofs.Release.Records
import LinkArchive.Proofs.Release.Visit
import Mathlib

/-!
# Accounts of a visit

The reports of a visit say what was told on it. The lines of a dump are told in their order, and
behind them what came of the dump: `Visit.Accounted`. A report counts what was told, also where the
dump was given up, and the counts of a release are those of all its dumps:
`Visit.balanced_of_release`.
-/

namespace LinkArchive

/-! ### Lines -/

/-- The line of a dump that something happened at. -/
def Event.line? : Event → Option Nat
  | .link _ context => some context.line
  | .diagnostic (.warning _ flaw) => some flaw.line
  | .diagnostic (.recordError _ line _) => some line
  | _ => none

/-- What is told of lines of a dump that are behind line `number`, in the order of the lines. A line
is a record or an error, and a warning goes with a record. -/
inductive LinesTold (place : Location) : Nat → List Event → Prop where
  | nil (number : Nat) : LinesTold place number []
  | record {number : Nat} {context : LinkContext} {rest : List Event} (record : LinkRecord)
      (there : context.place = place) (behind : number < context.line)
      (later : LinesTold place context.line rest) :
      LinesTold place number (.link record context :: rest)
  | flagged {number : Nat} {flaw : Warning} {context : LinkContext} {rest : List Event}
      (record : LinkRecord) (there : context.place = place) (behind : number < context.line)
      (same : flaw.line = context.line) (later : LinesTold place context.line rest) :
      LinesTold place number (.diagnostic (.warning place flaw) :: .link record context :: rest)
  | error {number line : Nat} {rest : List Event} (error : DumpError) (behind : number < line)
      (later : LinesTold place line rest) :
      LinesTold place number (.diagnostic (.recordError place line error) :: rest)

namespace LinesTold

variable {place : Location} {number : Nat} {events : List Event}

theorem told_there (told : LinesTold place number events) :
    ∀ event ∈ events, event.IsAt place ∧ event.line?.isSome := by
  induction told with
  | nil number => exact List.forall_mem_nil _
  | record record there behind later ih =>
    rw [List.forall_mem_cons]
    exact ⟨⟨there, rfl⟩, ih⟩
  | flagged record there behind same later ih =>
    rw [List.forall_mem_cons, List.forall_mem_cons]
    exact ⟨⟨rfl, rfl⟩, ⟨there, rfl⟩, ih⟩
  | error error behind later ih =>
    rw [List.forall_mem_cons]
    exact ⟨⟨rfl, rfl⟩, ih⟩

theorem lines_behind (told : LinesTold place number events) :
    ∀ line ∈ events.filterMap Event.line?, number < line := by
  induction told with
  | nil number => exact List.forall_mem_nil _
  | record record there behind later ih =>
    intro line member
    rcases List.mem_cons.mp member with rfl | member
    · exact behind
    · exact Nat.lt_trans behind (ih line member)
  | flagged record there behind same later ih =>
    intro line member
    rcases List.mem_cons.mp member with rfl | member
    · rw [same]
      exact behind
    · rcases List.mem_cons.mp member with rfl | member
      · exact behind
      · exact Nat.lt_trans behind (ih line member)
  | error error behind later ih =>
    intro line member
    rcases List.mem_cons.mp member with rfl | member
    · exact behind
    · exact Nat.lt_trans behind (ih line member)

theorem lines_ordered (told : LinesTold place number events) :
    (events.filterMap Event.line?).Pairwise (· ≤ ·) := by
  induction told with
  | nil number => exact .nil
  | record record there behind later ih =>
    exact .cons (fun line member => Nat.le_of_lt (later.lines_behind line member)) ih
  | @flagged _ _ context _ record there behind same later ih =>
    have further := fun line member => Nat.le_of_lt (later.lines_behind line member)
    refine .cons ?_ (.cons further ih)
    intro line member
    rw [same]
    rcases List.mem_cons.mp member with rfl | member
    · exact Nat.le_refl _
    · exact further line member
  | error error behind later ih =>
    exact .cons (fun line member => Nat.le_of_lt (later.lines_behind line member)) ih

/-- A warning comes directly before the record that it is about. -/
theorem record_of_warning (told : LinesTold place number events) {seen rest : List Event}
    {flaw : Warning} (split : events = seen ++ .diagnostic (.warning place flaw) :: rest) :
    ∃ record context later, rest = .link record context :: later ∧ context.line = flaw.line := by
  induction told generalizing seen with
  | nil number => simp at split
  | record record there behind later ih =>
    rcases List.cons_eq_append_iff.mp split with ⟨-, other⟩ | ⟨front, -, split⟩
    · cases other
    · exact ih split
  | flagged record there behind same later ih =>
    rcases List.cons_eq_append_iff.mp split with ⟨-, first⟩ | ⟨front, -, split⟩
    · cases first
      exact ⟨record, _, _, rfl, same.symm⟩
    · rcases List.cons_eq_append_iff.mp split with ⟨-, other⟩ | ⟨front, -, split⟩
      · cases other
      · exact ih split
  | error error behind later ih =>
    rcases List.cons_eq_append_iff.mp split with ⟨-, other⟩ | ⟨front, -, split⟩
    · cases other
    · exact ih split

/-- What is told of a line that is read, and then of the lines behind it. -/
theorem line {context : LinkContext} {line : Nat} (grammar : Grammar)
    (options : ReaderOptions) (text : Bytes) (behind : number < line)
    (later : LinesTold context.place line events) :
    LinesTold context.place number
      (Event.ofItem context (DumpReader.itemOf grammar options (text, line)) ++ events) := by
  have warnings := Dump.warnings_recordOf grammar options line text
  unfold DumpReader.itemOf
  generalize Dump.recordOf grammar options line text = found at warnings ⊢
  rcases warnings with quiet | ⟨record, flaw, rfl, same⟩
  · rw [quiet]
    cases found.1 with
    | ok record => exact .record record rfl behind later
    | error error => exact .error error behind later
  · exact .flagged record rfl behind same later

end LinesTold

/-! ### Counts -/

theorem Event.recordErrors_append (events others : List Event) :
    recordErrors (events ++ others) = recordErrors events ++ recordErrors others :=
  List.filterMap_append

theorem Event.warnings_append (events others : List Event) :
    warnings (events ++ others) = warnings events ++ warnings others :=
  List.filterMap_append

namespace Visit

variable {σ : Type} {handler : Handler σ} {context : LinkContext} {bytes : Validator}
variable {reader : DumpReader} {report final : MemberReport} {place : Location} {number : Nat}
variable {events : List Event}

/-- From one report to a later one, lines behind line `number` were told and counted. -/
structure Advances (place : Location) (number : Nat) (report final : MemberReport)
    (events : List Event) : Prop where
  told : LinesTold place number events
  links_eq : final.links = report.links + (Event.calls events).length
  recordErrors_eq : final.recordErrors = report.recordErrors + (Event.recordErrors events).length
  warnings_eq : final.warnings = report.warnings + (Event.warnings events).length
  stays : report.IsAt place → final.IsAt place

theorem advances_ended (report : MemberReport) (place : Location) (number : Nat)
    (ending : Except MemberFault Nat) :
    Advances place number report (report.ended place ending) [] where
  told := .nil number
  links_eq := by cases ending <;> rfl
  recordErrors_eq := by cases ending <;> rfl
  warnings_eq := by cases ending <;> rfl
  stays there := by
    cases ending with
    | ok total => exact ⟨there.name_eq, there.failed_there⟩
    | error fault =>
      refine ⟨there.name_eq, ?_⟩
      rintro error ⟨⟩
      rfl

theorem count_ofItem (report : MemberReport) (context : LinkContext) (item : DumpReader.Item) :
    let told := Event.ofItem context item
    (report.count [item]).links = report.links + (Event.calls told).length ∧
      (report.count [item]).recordErrors = report.recordErrors + (Event.recordErrors told).length ∧
      (report.count [item]).warnings = report.warnings + (Event.warnings told).length := by
  rcases item with ⟨line, error | record, warnings⟩
  · rw [MemberReport.count_error]
    simp [Event.ofItem, Event.ofResult, Event.calls, Event.recordErrors, Event.warnings,
      List.filterMap_map]
  · rw [MemberReport.count_record]
    simp [Event.ofItem, Event.ofResult, Event.calls, Event.recordErrors, Event.warnings,
      List.filterMap_map]

/-- A line moves each count on by what is told of it. -/
theorem Advances.line {line : Nat} (grammar : Grammar) (options : ReaderOptions) (text : Bytes)
    (behind : number < line) :
    let item := DumpReader.itemOf grammar options (text, line)
    Advances context.place line (report.count [item]) final events →
      Advances context.place number report final (Event.ofItem context item ++ events) := by
  intro item later
  obtain ⟨links, recordErrors, warnings⟩ := count_ofItem report context item
  refine ⟨later.told.line grammar options text behind, ?_, ?_, ?_, ?_⟩
  · rw [later.links_eq, links, Event.calls_append, List.length_append, Nat.add_assoc]
  · rw [later.recordErrors_eq, recordErrors, Event.recordErrors_append, List.length_append,
      Nat.add_assoc]
  · rw [later.warnings_eq, warnings, Event.warnings_append, List.length_append, Nat.add_assoc]
  · exact fun there => later.stays ⟨there.name_eq, there.failed_there⟩

/-- A visit keeps its counts up to where the dump ends or is given up. -/
theorem advances_records (begun : reader.phase ≠ .start) {state : σ}
    (behind : number + reader.held.toList.length ≤ reader.lineNumber)
    (went : (records handler context bytes reader report state).result = .ok final) :
    Advances context.place number report final
      (records handler context bytes reader report state).events := by
  induction left : reader.weight using Nat.strongRecOn generalizing reader report state number with
  | ind weight ih =>
    have turn : Turn handler context bytes reader report state _ := turn_records begun state
    generalize records handler context bytes reader report state = handled at turn went ⊢
    cases turn with
    | ended items =>
      cases went
      exact advances_ended report context.place number _
    | @line next _ text read moves less items ending =>
      have begun : next.phase ≠ .start := by
        rw [moves.phase_eq]
        exact begun
      have further : number < next.lineNumber := by
        have forward := moves.forward
        omega
      have behind : next.lineNumber + next.held.toList.length ≤ next.lineNumber := by
        rw [moves.free]
        exact Nat.le_refl _
      obtain ⟨_, taken, went, told⟩ := Handled.eq_ok_of_andThen went
      rw [left] at less
      have later := ih next.weight less begun behind went rfl
      rw [told, Handled.events_of_ok taken]
      subst read
      exact later.line reader.grammar reader.options text further

theorem advances_dump (free : reader.held = none) {state : σ}
    (went : (dump handler context bytes reader report state).result = .ok final) :
    Advances context.place 0 report final
      (dump handler context bytes reader report state).events := by
  have begun := DumpReader.begun_header reader
  have held := DumpReader.held_header free
  rw [dump] at went ⊢
  rcases found : reader.header with ⟨error | header, next⟩
  · rw [found] at went
    cases error <;> cases went <;> exact advances_ended report context.place 0 _
  · rw [found] at went begun held
    have behind : 0 + next.held.toList.length ≤ next.lineNumber := by
      rw [Nat.zero_add]
      exact held
    have advances := advances_records begun behind went
    exact { advances with stays := fun there => advances.stays ⟨there.name_eq, there.failed_there⟩ }

theorem advances_entry {container : String} {metadata : ReleaseMetadata} {options : WalkOptions}
    {found : Zip.Entry} {state : σ}
    (went : (entry handler container metadata options found state).result = .ok final) :
    ∃ width, Advances ⟨container, found.name⟩ 0 { name := found.name, width } final
      (entry handler container metadata options found state).events := by
  cases kind : found.kind with
  | dump compression width =>
    rcases opened : found.dumpBytes with ⟨_ | source, crc32⟩
    · simp only [entry, kind, opened] at went ⊢
      cases went
      exact ⟨width, advances_ended _ _ 0 (.error .unopened)⟩
    · simp only [entry, kind, opened] at went ⊢
      exact ⟨width, advances_dump rfl went⟩
  | metadata =>
    simp only [entry, kind] at went ⊢
    cases went
    exact ⟨none, .nil 0, rfl, rfl, rfl, id⟩
  | other =>
    simp only [entry, kind] at went ⊢
    cases went
    exact ⟨none, .nil 0, rfl, rfl, rfl, id⟩

/-! ### Dumps -/

/-- All of it happened at lines of one dump, in the order of these, and each warning just before
the record that it is about. -/
structure InOrder (place : Location) (told : List Event) : Prop where
  told_there : ∀ event ∈ told, event.IsAt place ∧ event.line?.isSome
  lines_ordered : (told.filterMap Event.line?).Pairwise (· ≤ ·)
  record_of_warning : ∀ seen flaw rest, told = seen ++ .diagnostic (.warning place flaw) :: rest →
    ∃ record context later, rest = .link record context :: later ∧ context.line = flaw.line

/-- The report on a dump is the last that is told of it, directly behind its failure if it has one,
and counts all that was told of the dump. -/
structure Accounted (place : Location) (report : MemberReport) (events : List Event) : Prop where
  reported_last : ∃ told, InOrder place told ∧ events = told ++
    (report.failure.toList.map fun error => .diagnostic (.memberFailed error)) ++
      [.memberDone report]
  reports_there : report.IsAt place
  links_eq : report.links = (Event.calls events).length
  recordErrors_eq : report.recordErrors = (Event.recordErrors events).length
  warnings_eq : report.warnings = (Event.warnings events).length

theorem accounted_member {container : String} {metadata : ReleaseMetadata} {options : WalkOptions}
    {found : Zip.Entry} {state : σ}
    (went : (member handler container metadata options found state).result = .ok report) :
    Accounted ⟨container, found.name⟩ report
      (member handler container metadata options found state).events := by
  obtain ⟨counted, went, same, events⟩ := Handled.eq_ok_of_andThen went
  cases same
  obtain ⟨width, advances⟩ := advances_entry went
  have told := advances.told
  rw [member, events]
  refine ⟨⟨_, ⟨told.told_there, told.lines_ordered, ?_⟩, ?_⟩, ?_, ?_, ?_, ?_⟩
  · exact fun seen flaw rest split => told.record_of_warning split
  · rw [List.append_assoc]
    rfl
  · refine advances.stays ⟨rfl, ?_⟩
    intro error failed
    cases failed
  · rw [advances.links_eq]
    simp [Event.calls, Event.ofReport]
  · rw [advances.recordErrors_eq]
    simp [Event.recordErrors, Event.ofReport]
  · rw [advances.warnings_eq]
    simp [Event.warnings, Event.ofReport]

/-! ### Releases -/

theorem total_eq_sum (report : ReleaseReport) (number : MemberReport → Nat) :
    report.total number = (report.members.map number).sum := by
  rw [ReleaseReport.total, List.sum, List.foldr_map]

theorem sum_eq_length {β : Type} {number : MemberReport → Nat} {pick : Event → Option β}
    {R : Zip.Entry → MemberReport × List Event → Prop} {entries : List Zip.Entry}
    {dumps : List (MemberReport × List Event)} (all : List.Forall₂ R entries dumps)
    (each : ∀ entry came, R entry came → number came.1 = (came.2.filterMap pick).length) :
    ((dumps.map (·.1)).map number).sum = ((dumps.flatMap (·.2)).filterMap pick).length := by
  induction all with
  | nil => rfl
  | cons first others ih =>
    rw [List.map_cons, List.map_cons, List.sum_cons, List.flatMap_cons, List.filterMap_append,
      List.length_append, ih, each _ _ first]

theorem release_eq_ok {container : String} {options : WalkOptions} {file : Bytes} {state : σ}
    {whole : ReleaseReport}
    (went : (release handler container options file state).result = .ok whole) :
    ∃ entries found metadata, Zip.entries? file = some entries ∧
      Inventory.ofEntries container entries = .ok found ∧ found.metadata.metadata = .ok metadata ∧
      release handler container options file state =
        inventory handler container options found metadata state := by
  rw [release] at went ⊢
  cases listed : Zip.entries? file with
  | none =>
    rw [listed] at went
    cases went
  | some entries =>
    simp only [listed] at went ⊢
    cases sorted : Inventory.ofEntries container entries with
    | error error =>
      simp only [sorted] at went
      cases went
    | ok found =>
      simp only [sorted] at went ⊢
      cases decoded : found.metadata.metadata with
      | error fault =>
        simp only [decoded] at went
        cases went
      | ok metadata => exact ⟨entries, found, metadata, rfl, sorted, decoded, rfl⟩

/-- All that was told was told of the dumps, one after the other in the order of the container, and
the reports account for it. -/
structure Balanced (container : String) (file : Bytes) (whole : ReleaseReport)
    (events : List Event) : Prop where
  dumps_accounted : ∃ (entries : List Zip.Entry) (dumps : List (MemberReport × List Event)),
    Zip.entries? file = some entries ∧
      List.Forall₂ (fun entry came => Accounted ⟨container, entry.name⟩ came.1 came.2)
        (entries.filter (·.kind.isDump)) dumps ∧
      whole.members = dumps.map (·.1) ∧ events = dumps.flatMap (·.2)
  links_sum : whole.links = (whole.members.map (·.links)).sum
  links_eq : whole.links = (Event.calls events).length
  recordErrors_sum : whole.recordErrors = (whole.members.map (·.recordErrors)).sum
  recordErrors_eq : whole.recordErrors = (Event.recordErrors events).length
  warnings_sum : whole.warnings = (whole.members.map (·.warnings)).sum
  warnings_eq : whole.warnings = (Event.warnings events).length

/-- The reports of a visit that comes to its end account for all that was told on it, whatever
became of the dumps. -/
theorem balanced_of_release {container : String} {options : WalkOptions} {file : Bytes} {state : σ}
    {whole : ReleaseReport}
    (went : (release handler container options file state).result = .ok whole) :
    Balanced container file whole (release handler container options file state).events := by
  obtain ⟨entries, found, metadata, listed, sorted, -, same⟩ := release_eq_ok went
  rw [same] at went ⊢
  obtain ⟨members, done, result, told⟩ := Handled.eq_ok_of_andThen went
  cases result
  obtain ⟨dumps, rfl, all, visited⟩ := Handled.eq_ok_of_each done
  have told : (inventory handler container options found metadata state).events =
      dumps.flatMap (·.2) := by
    rw [inventory, told, all]
    exact List.append_nil _
  have accounted : List.Forall₂ (fun entry came => Accounted ⟨container, entry.name⟩ came.1 came.2)
      (entries.filter (·.kind.isDump)) dumps := by
    rw [← Inventory.dumps_of_ofEntries sorted]
    refine visited.imp ?_
    rintro entry came ⟨before, result, events⟩
    rw [← events]
    exact accounted_member result
  rw [told]
  refine ⟨⟨entries, dumps, listed, accounted, rfl, rfl⟩, total_eq_sum _ _, ?_, total_eq_sum _ _, ?_,
    total_eq_sum _ _, ?_⟩
  · rw [ReleaseReport.links, total_eq_sum]
    exact sum_eq_length accounted fun _ _ account => account.links_eq
  · rw [ReleaseReport.recordErrors, total_eq_sum]
    exact sum_eq_length accounted fun _ _ account => account.recordErrors_eq
  · rw [ReleaseReport.warnings, total_eq_sum]
    exact sum_eq_length accounted fun _ _ account => account.warnings_eq

/-- The second dump of the small release fails behind its only record. -/
theorem balanced_of_smallRelease :
    ∃ whole, (release counting "c" smallOptions smallRelease 0).result = .ok whole ∧
      whole.links = 3 ∧ whole.recordErrors = 1 ∧ whole.warnings = 2 ∧
      whole.failedMembers.map (fun report => (report.name, report.links)) = [("2.txt.gz", 1)] ∧
      Balanced "c" smallRelease whole
        (release counting "c" smallOptions smallRelease 0).events := by
  have evaluated : (release counting "c" smallOptions smallRelease 0).result.toOption.map
      (fun whole => (whole.links, whole.recordErrors, whole.warnings,
        whole.failedMembers.map fun report => (report.name, report.links))) =
        some (3, 1, 2, [("2.txt.gz", 1)]) := by
    decide +kernel
  cases result : (release counting "c" smallOptions smallRelease 0).result with
  | error error =>
    rw [result] at evaluated
    cases evaluated
  | ok whole =>
    rw [result] at evaluated
    have parts := Option.some.inj evaluated
    simp only [Prod.mk.injEq] at parts
    obtain ⟨links, recordErrors, warnings, failed⟩ := parts
    exact ⟨whole, rfl, links, recordErrors, warnings, failed, balanced_of_release result⟩

end Visit

end LinkArchive
