import LinkArchive.Compressed.Lzma
import LinkArchive.Compressed.Xz.Header

/-! Xz streams, one after the other and with padding between them. Data that does not begin like a
stream is taken for a file of the older format. -/

namespace LinkArchive.Compressed.Xz

open Expand

structure Record where
  size : Nat
  content : Nat
  deriving DecidableEq

def padding (length : Nat) : Nat := (4 - length % 4) % 4

def isStated (stated : Option Nat) (number : Nat) : Bool := stated.all (· == number)

def block (check : Check) (first : UInt8) : Expand Record := do
  let header ← blockHeader first
  let begun ← taken
  let start ← size
  Lzma.Chunk.expand header.window
  let compressed := (← taken) - begun
  let content ← outputFrom start
  require (isStated header.compressed compressed && isStated header.content content.length)
  zeros (padding compressed)
  require (check.accepts content (← bytes check.size))
  return ⟨header.size + compressed + check.size, content.length⟩

/-- Each block takes a byte, so `fuel` bytes are enough. -/
def blocks (check : Check) : Nat → Expand (List Record)
  | 0 => broken
  | fuel + 1 => do
    let first ← byte
    if first == 0 then return []
    let record ← block check first
    return record :: (← blocks check fuel)

def records : Nat → Expand (List Record)
  | 0 => pure []
  | count + 1 => do
    let size ← number
    let content ← number
    return ⟨size, content⟩ :: (← records count)

def recording (part : Expand α) : Expand (α × Bytes) := do
  let before ← get
  let value ← part
  return (value, before.input.take ((← taken) - before.taken))

/-- The index has to list the given blocks. -/
def index (expected : List Record) : Expand Nat := do
  let (_, body) ← recording do
    require ((← number) == expected.length)
    require ((← records expected.length) == expected)
  let pad := padding (body.length + 1)
  zeros pad
  let content := 0 :: body ++ List.replicate pad 0
  expect (Bytes.ofNatLittleEndian 4 (Digest.Crc32.checksum content).toNat)
  return content.length + 4

def stream : Expand Unit := do
  let flags ← streamHeader
  let blocks ← blocks (checkOf flags) ((← get).input.length + 1)
  streamFooter flags (← index blocks)

/-- Whether the number of zeros is a multiple of four is looked at where another byte follows;
otherwise more of them are missing. -/
def streamPadding : Nat → Nat → Expand Unit
  | 0, _ => broken
  | fuel + 1, count => do
    match (← get).input with
    | [] => if count % 4 ≠ 0 then throw .starved
    | next :: _ =>
      if next == 0 then
        zeros 1
        streamPadding fuel (count + 1)
      else require (count % 4 = 0)

/-- Each stream takes a byte, so `fuel` bytes are enough. -/
def streams : Nat → Expand Unit
  | 0 => broken
  | fuel + 1 => do
    stream
    streamPadding ((← get).input.length + 1) 0
    if !(← atEnd) then streams fuel

def data : Expand Unit := do
  match (← get).input with
  | [] => throw .starved
  | first :: rest => if first == 0xfd then streams (rest.length + 2) else Lzma.expand

def expand (room : Nat) (input : Bytes) : Expansion := run { room } data input

end LinkArchive.Compressed.Xz
