import LinkArchive.Release.Report

/-! What a walk lets others know while it goes on: every record, whatever is wrong but does not end
the walk, and the report of each dump. -/

namespace LinkArchive

structure LinkContext where
  metadata : ReleaseMetadata
  header : List MetaField
  width : Option Nat
  place : Location
  line : Nat := 0

inductive Diagnostic where
  | warning (place : Location) (warning : Warning)
  | recordError (place : Location) (line : Nat) (error : DumpError)
  | memberFailed (error : MemberError)
  deriving DecidableEq, Repr

def Diagnostic.message (cause : String) : Diagnostic → String
  | warning place flaw => place.render ++ ": " ++ flaw.message
  | recordError place _ error => place.render ++ ": " ++ (error.message cause).getD cause
  | memberFailed error => error.message cause

inductive Event where
  | link (record : LinkRecord) (context : LinkContext)
  | diagnostic (diagnostic : Diagnostic)
  | memberDone (report : MemberReport)

namespace Event

def ofResult (context : LinkContext) : Except DumpError LinkRecord → Event
  | .ok record => link record context
  | .error error => diagnostic (.recordError context.place context.line error)

def ofItem (context : LinkContext) (item : DumpReader.Item) : List Event :=
  item.warnings.map (fun flaw => diagnostic (.warning context.place flaw)) ++
    [ofResult { context with line := item.number } item.result]

def ofReport (report : MemberReport) : List Event :=
  (report.failure.toList.map fun error => diagnostic (.memberFailed error)) ++ [memberDone report]

end Event

end LinkArchive
