import LinkArchive.Release.Handler

/-! A release is visited record by record: a record is read, the handler takes it, and only then is
the next one read. -/

namespace LinkArchive

def MemberReport.ended (report : MemberReport) (place : Location) :
    Except MemberFault Nat → MemberReport
  | .ok bytes => { report with bytes }
  | .error fault => { report with failure := some ⟨place, fault⟩ }

namespace Handled

def behind (events : List Event) (handled : Handled σ α) : Handled σ α :=
  { handled with events := events ++ handled.events }

end Handled

namespace Visit

def warned (place : Location) (warnings : List Warning) : List Event :=
  warnings.map fun flaw => .diagnostic (.warning place flaw)

/-- Every read tells its warnings first. `report` has the counts so far, and `bytes` verifies the
member. -/
def records (handler : Handler σ) (context : LinkContext) (bytes : Validator) (reader : DumpReader)
    (report : MemberReport) (state : σ) : Handled σ MemberReport :=
  match _found : reader.read with
  | (result, warnings, next) =>
    let report := { report with warnings := report.warnings + warnings.length }
    let here := { context with line := next.lineNumber }
    .behind (warned context.place warnings) <|
      match result with
      | .ok none =>
        let ending := bytes.finish.mapError .ofVerifyError
        .ofResult (.ok (report.ended context.place ending)) state
      | .ok (some record) =>
        match handler record here state with
        | (some text, state) =>
          ⟨.error (.handler context.place text), [.link record here], state⟩
        | (none, state) =>
          .behind [.link record here] <|
            records handler context bytes next { report with links := report.links + 1 } state
      | .error (.io error) =>
        .ofResult (.ok (report.ended context.place (.error (.ofReadError error)))) state
      | .error error =>
        .behind [.diagnostic (.recordError context.place next.lineNumber error)] <|
          records handler context bytes next
            { report with recordErrors := report.recordErrors + 1 } state
termination_by reader.weight
decreasing_by
  all_goals
    have bound := reader.weight_read (by simp [_found])
    simpa [_found] using bound

def dump (handler : Handler σ) (context : LinkContext) (bytes : Validator) (reader : DumpReader)
    (report : MemberReport) (state : σ) : Handled σ MemberReport :=
  match reader.header with
  | (.error (.io error), _) =>
    .ofResult (.ok (report.ended context.place (.error (.ofReadError error)))) state
  | (.error error, _) =>
    .ofResult (.ok (report.ended context.place (.error (.dump error)))) state
  | (.ok header, reader) =>
    records handler { context with header } bytes reader { report with header } state

/-- An entry that is no dump has nothing in it. -/
def entry (handler : Handler σ) (container : String) (metadata : ReleaseMetadata)
    (options : WalkOptions) (entry : Zip.Entry) (state : σ) : Handled σ MemberReport :=
  let place : Location := ⟨container, entry.name⟩
  match entry.kind with
  | .dump compression width =>
    let report : MemberReport := { name := entry.name, width }
    match entry.dumpBytes with
    | (none, _) => .ofResult (.ok (report.ended place (.error .unopened))) state
    | (some source, crc32) =>
      let validator := Validator.ofSource source (options.digestsFor entry.name crc32)
      let (data, failure, _) := validator.readToEnd
      let reader := DumpReader.ofSource ((compression.expand data).source failure) (.fixed width)
        { requireSeparator := options.requireSeparator }
      dump handler { metadata, header := [], width, place } validator reader report state
  | _ => .ofResult (.ok { name := entry.name }) state

def member (handler : Handler σ) (container : String) (metadata : ReleaseMetadata)
    (options : WalkOptions) (found : Zip.Entry) (state : σ) : Handled σ MemberReport :=
  (entry handler container metadata options found state).andThen fun report state =>
    ⟨.ok report, Event.ofReport report, state⟩

def inventory (handler : Handler σ) (container : String) (options : WalkOptions)
    (inventory : Inventory) (metadata : ReleaseMetadata) (state : σ) : Handled σ ReleaseReport :=
  let skipped := inventory.skipped.map (·.name)
  (Handled.each (member handler container metadata options) inventory.dumps state).andThen
    fun members => .ofResult (.ok { container, metadata, members, skipped })

def release (handler : Handler σ) (container : String) (options : WalkOptions) (file : Bytes)
    (state : σ) : Handled σ ReleaseReport :=
  match Zip.entries? file with
  | none => .ofResult (.error (.corrupted container)) state
  | some entries =>
    match Inventory.ofEntries container entries with
    | .error error => .ofResult (.error error) state
    | .ok found =>
      match found.metadata.metadata with
      | .error fault =>
        .ofResult (.error (.member ⟨⟨container, found.metadata.name⟩, fault⟩)) state
      | .ok metadata => inventory handler container options found metadata state

end Visit

end LinkArchive
