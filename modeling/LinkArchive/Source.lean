import LinkArchive.Digest.Error

/-! A source is the script of what its reads will meet: data, which one read or several hand out but
no read joins with what follows it; nothing, which looks like the end; or a failure. -/

namespace LinkArchive

inductive Delivery where
  | chunk (bytes : Bytes)
  | failure (error : ReadError)
  deriving DecidableEq, Repr

/-- A delivery that a read without any room is done with. -/
def Delivery.isIdle : Delivery → Bool
  | .chunk bytes => bytes.isEmpty
  | .failure _ => true

abbrev Source := List Delivery

/-- Some bytes, none at the end of the data, or a failure. -/
abbrev ReadResult := Except ReadError Bytes

namespace Source

def read (room : Nat) : Source → ReadResult × Source
  | [] => (.ok [], [])
  | .failure error :: rest => (.error error, rest)
  | .chunk bytes :: rest =>
    if bytes.length ≤ room then (.ok bytes, rest)
    else (.ok (bytes.take room), .chunk (bytes.drop room) :: rest)

/-- Having no bytes left is not taken for the end. -/
def putBack (bytes : Bytes) (rest : Source) : Source :=
  if bytes.isEmpty then rest else .chunk bytes :: rest

def weight : Source → Nat
  | [] => 0
  | .failure _ :: rest => weight rest + 1
  | .chunk bytes :: rest => weight rest + bytes.length + 1

/-- The data up to the first end, failures that are mere interruptions aside, the failure that ended
it if one did, and what follows. -/
def readToEnd : Source → Bytes × Option ReadError × Source
  | [] => ([], none, [])
  | .failure error :: rest =>
    if error.isInterrupted then readToEnd rest else ([], some error, rest)
  | .chunk bytes :: rest =>
    if bytes.isEmpty then ([], none, rest)
    else
      let (more, ending) := readToEnd rest
      (bytes ++ more, ending)

def pieces (size : Nat) (bytes : Bytes) : Source :=
  if _h : size = 0 ∨ (bytes.drop size).isEmpty then [.chunk bytes]
  else .chunk (bytes.take size) :: pieces size (bytes.drop size)
termination_by bytes.length
decreasing_by
  simp only [List.isEmpty_iff, List.drop_eq_nil_iff] at _h
  simp only [List.length_drop]
  omega

/-- The source as seen through a buffer, which takes what it is given once it is empty. A buffer
without room never gets past the first data. -/
def buffered (capacity : Nat) (source : Source) : Source :=
  if capacity = 0 then source.takeWhile (·.isIdle)
  else source.flatMap fun
    | .chunk bytes => pieces capacity bytes
    | failure => [failure]

/-- What a buffer never takes of the source. It is left to reads that go past the buffer. -/
def untaken (capacity : Nat) (source : Source) : Source :=
  if capacity = 0 then source.dropWhile (·.isIdle) else []

end Source

end LinkArchive
