import LinkArchive.Source

/-! Expanding data goes in steps, each with a piece of the input and limited room. The output of a
step that finds the data malformed is lost; data that merely ends too early is noticed only once all
output was handed out. -/

namespace LinkArchive

inductive Ending where
  | complete
  /-- The data ends too early. -/
  | starved
  | broken
  deriving DecidableEq, Repr

structure Expansion where
  output : Bytes
  ending : Ending
  deriving DecidableEq, Repr

namespace Expansion

def fault : ReadError := .fault ⟨.invalidData, none⟩

/-- What comes after the output. Only malformed data is given up before its source has ended. -/
def last (ending : Ending) (failure : Option ReadError) : Source :=
  match ending, failure with
  | .broken, _ => [.failure fault]
  | _, some error => [.failure error]
  | .starved, none => [.failure fault]
  | .complete, none => []

def source (expansion : Expansion) (failure : Option ReadError) : Source :=
  Source.putBack expansion.output (last expansion.ending failure)

end Expansion

/-! ### Steps -/

structure Pace where
  piece : Nat := 8192
  room : Nat := 8192

structure Work where
  pace : Pace
  input : Bytes
  taken : Nat := 0
  output : Array UInt8 := #[]
  settled : Nat := 0

inductive Stop where
  | starved
  | broken
  deriving DecidableEq, Repr

abbrev Expand := EStateM Stop Work

namespace Expand

def broken : Expand α := throw .broken

def require (condition : Bool) : Expand Unit := if condition then pure () else broken

def settle : Expand Unit := modify fun w => { w with settled := w.output.size }

def makeRoom : Expand Unit :=
  modify fun w =>
    if w.output.size < w.settled + w.pace.room then w else { w with settled := w.output.size }

def atEnd : Expand Bool := do return (← get).input.isEmpty

def taken : Expand Nat := do return (← get).taken

/-- The first byte of a piece begins another step. -/
def byte : Expand UInt8 := fun w =>
  match w.input with
  | [] => .error .starved w
  | byte :: input =>
    let settled := if w.taken % w.pace.piece = 0 then w.output.size else w.settled
    .ok byte { w with input, settled, taken := w.taken + 1 }

def bytes : Nat → Expand Bytes
  | 0 => pure []
  | count + 1 => do
    let first ← byte
    return first :: (← bytes count)

def littleEndian (count : Nat) : Expand Nat := do return Bytes.littleEndian (← bytes count)

def expect : Bytes → Expand Unit
  | [] => pure ()
  | expected :: rest => do
    require ((← byte) == expected)
    expect rest

def zeros (count : Nat) : Expand Unit := expect (List.replicate count 0)

def emit (byte : UInt8) : Expand Unit := do
  makeRoom
  modify fun w => { w with output := w.output.push byte }

def pass : Nat → Expand Unit
  | 0 => pure ()
  | count + 1 => do
    emit (← byte)
    pass count

def size : Expand Nat := do return (← get).output.size

/-- The byte that stands `distance` bytes before the end of the output; zero before its start. -/
def back (distance : Nat) : Expand UInt8 := do
  let output := (← get).output
  return if distance ≤ output.size then output.getD (output.size - distance) 0 else 0

def copy (distance : Nat) : Nat → Expand Unit
  | 0 => pure ()
  | count + 1 => do
    emit (← back distance)
    copy distance count

def outputFrom (start : Nat) : Expand Bytes := do return (← get).output.toList.drop start

def run (pace : Pace) (part : Expand Unit) (data : Bytes) : Expansion :=
  match part { pace, input := data } with
  | .ok _ w => ⟨w.output.toList, .complete⟩
  | .error .starved w => ⟨w.output.toList, .starved⟩
  | .error .broken w => ⟨w.output.toList.take w.settled, .broken⟩

end Expand

end LinkArchive
