import LinkArchive.Dump.Error
import LinkArchive.Json.Error

/-! Why a walk through a release ends early, and why a member is given up while the walk goes on. -/

namespace LinkArchive

structure Location where
  container : String
  member : String
  deriving DecidableEq, Repr

def Location.render (place : Location) : String := place.container ++ ":" ++ place.member

inductive MemberFault where
  | unopened
  | metadata (error : Json.JsonError)
  | checksum (error : VerifyError)
  | dump (error : DumpError)
  | unreadable
  deriving DecidableEq, Repr

namespace MemberFault

def ofVerifyError : VerifyError → MemberFault
  | .io _ => unreadable
  | error => checksum error

def ofReadError (error : ReadError) : MemberFault := ofVerifyError (.ofReadError error)

def isChecksum : MemberFault → Bool
  | checksum error => error.isMismatch
  | _ => false

/-- `cause` stands for what the readers of other formats say. -/
def message (cause : String) : MemberFault → String
  | unopened => "failed to open member: " ++ cause
  | metadata _ => "invalid release metadata: " ++ cause
  | checksum error => (error.message cause).getD cause
  | dump error => (error.message cause).getD cause
  | unreadable => "read failed: " ++ cause

end MemberFault

structure MemberError where
  place : Location
  fault : MemberFault
  deriving DecidableEq, Repr

def MemberError.message (cause : String) (error : MemberError) : String :=
  error.place.render ++ ": " ++ error.fault.message cause

inductive ReleaseError where
  | emptyArchive (container : String)
  | missingMetadata (container : String)
  | ambiguousMetadata (container first second : String)
  | corrupted (container : String)
  | member (error : MemberError)
  | handler (place : Location) (text : String)
  | unreadable (path : String) (fault : Fault)
  deriving DecidableEq, Repr

namespace ReleaseError

def location? : ReleaseError → Option Location
  | member error => some error.place
  | handler place _ => some place
  | _ => none

def isChecksum : ReleaseError → Bool
  | member error => error.fault.isChecksum
  | _ => false

def message (cause : String) : ReleaseError → String
  | emptyArchive container => "empty archive: " ++ container
  | missingMetadata container => "no metadata document in archive: " ++ container
  | ambiguousMetadata container first second =>
    "archive " ++ container ++ " has more than one metadata document: '" ++ first ++ "' and '" ++
      second ++ "'"
  | corrupted container => "archive is corrupted: " ++ container ++ ": " ++ cause
  | member error => error.message cause
  | handler place text => place.render ++ ": handler failed: " ++ text
  | unreadable path _ => "failed to read '" ++ path ++ "': " ++ cause

end ReleaseError

end LinkArchive
