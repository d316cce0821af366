import LinkArchive.Digest.Set

/-! What went wrong when data was asked for, and why data could not be verified. -/

namespace LinkArchive

inductive FaultKind where
  | interrupted
  | unexpectedEof
  | invalidData
  | invalidInput
  | notFound
  | notADirectory
  | isADirectory
  | brokenPipe
  | wouldBlock
  | other
  deriving DecidableEq, Repr

structure Fault where
  kind : FaultKind
  /-- Nothing for a fault that the operating system reports. -/
  text : Option String := none
  deriving DecidableEq, Repr

structure Mismatch where
  algorithm : Algorithm
  actual : Bytes
  expected : Bytes
  deriving DecidableEq, Repr

def Mismatch.message (m : Mismatch) : String :=
  m.algorithm.name ++ " sum is " ++ Text.toHex m.actual ++ " instead of " ++ Text.toHex m.expected

inductive VerifyError where
  | mismatch (mismatch : Mismatch)
  | digest (error : DigestError)
  | listing (path : String)
  | file (name : String) (source : VerifyError)
  | io (fault : Fault)
  deriving DecidableEq, Repr

namespace VerifyError

def isMismatch : VerifyError → Bool
  | mismatch _ => true
  | file _ source => source.isMismatch
  | _ => false

/-- `cause` stands for the text of a malformed listing. -/
def message (cause : String) : VerifyError → Option String
  | mismatch m => some m.message
  | digest error => some error.message
  | listing path => some ("failed to read file listing '" ++ path ++ "': " ++ cause)
  | file name source => (source.message cause).map fun text => "validate " ++ name ++ ": " ++ text
  | io fault => fault.text

end VerifyError

inductive ReadError where
  | fault (fault : Fault)
  /-- A reader further down verifies what it passes on, and could not. -/
  | verification (kind : FaultKind) (error : VerifyError)
  deriving DecidableEq, Repr

namespace ReadError

def kind : ReadError → FaultKind
  | fault f => f.kind
  | verification kind _ => kind

def isInterrupted (error : ReadError) : Bool := error.kind == .interrupted

def message (cause : String) : ReadError → Option String
  | fault f => f.text
  | verification _ error => error.message cause

end ReadError

namespace VerifyError

def toReadError : VerifyError → ReadError
  | io fault => .fault fault
  | error => .verification .invalidData error

def ofReadError : ReadError → VerifyError
  | .fault fault => .io fault
  | .verification _ error => error

theorem ofReadError_toReadError (error : VerifyError) : ofReadError error.toReadError = error := by
  cases error <;> rfl

end VerifyError

end LinkArchive
