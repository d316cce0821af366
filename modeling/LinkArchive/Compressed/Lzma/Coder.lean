import LinkArchive.Compressed.Expand

/-! LZMA codes a row of decisions, each with a chance that adapts to how it was decided before. The
coder keeps an interval; the decisions pick a part of it, and its code tells which. -/

namespace LinkArchive.Compressed.Lzma

/-- How many bits of a position and of the byte before it choose among chances. -/
structure Properties where
  contextBits : Nat := 0
  literalBits : Nat := 0
  positionBits : Nat := 0

def Properties.ofByte? (byte : UInt8) : Option Properties :=
  let value := byte.toNat
  let properties : Properties := ⟨value % 9, value / 9 % 5, value / 45⟩
  if value < 225 && properties.contextBits + properties.literalBits ≤ 4 then some properties
  else none

structure Coder where
  properties : Properties := {}
  /-- Length of the output before the window of which parts can be repeated. -/
  start : Nat := 0
  window : Nat := 4096
  allowance : Nat := 0
  range : UInt32 := 0
  code : UInt32 := 0
  chances : Array UInt32 := #[]
  history : Nat := 0
  recent : List Nat := [0, 0, 0, 0]

abbrev Decode := StateT Coder Expand

namespace Coder

def even : UInt32 := 1024

def decide (coder : Coder) (place : Nat) : Bool × Coder :=
  let chance := coder.chances.getD place even
  let bound := (coder.range >>> 11) * chance
  if coder.code < bound then
    (false, { coder with
      range := bound
      chances := coder.chances.setIfInBounds place (chance + (2048 - chance) >>> 5) })
  else
    (true, { coder with
      range := coder.range - bound
      code := coder.code - bound
      chances := coder.chances.setIfInBounds place (chance - chance >>> 5) })

def halve (coder : Coder) : Bool × Coder :=
  let range := coder.range >>> 1
  let rest := coder.code - range
  if rest >>> 31 == 0 then (true, { coder with range, code := rest })
  else (false, { coder with range })

end Coder

/-- Bytes beyond what is decoded are refused. -/
def takeByte : Decode UInt8 := do
  let byte ← Expand.byte
  Expand.require ((← get).allowance != 0)
  modify fun coder => { coder with allowance := coder.allowance - 1 }
  return byte

def widen : Decode Unit := do
  if (← get).range < 0x1000000 then
    let byte ← takeByte
    modify fun coder =>
      { coder with range := coder.range <<< 8, code := coder.code <<< 8 ||| byte.toUInt32 }

def takeCode : Nat → Decode Unit
  | 0 => pure ()
  | count + 1 => do
    let byte ← takeByte
    modify fun coder => { coder with code := coder.code <<< 8 ||| byte.toUInt32 }
    takeCode count

def begin : Decode Unit := do
  Expand.require ((← takeByte) == 0)
  modify fun coder => { coder with range := 0xffffffff, code := 0 }
  takeCode 4

def finish : Decode Unit := do
  widen
  Expand.require ((← get).code == 0)

def bit (place : Nat) : Decode Nat := do
  widen
  return (← modifyGet fun coder => coder.decide place).toNat

/-- Goes down a tree of chances: the bits decided, most significant first, after a leading one. -/
def descend (base : Nat) : Nat → Nat → Decode Nat
  | 0, path => pure path
  | count + 1, path => do descend base count (2 * path + (← bit (base + path)))

def tree (base count : Nat) : Decode Nat := do return (← descend base count 1) - Nat.pow 2 count

/-- The bits of a tree of chances, least significant first. `path` is the place in the tree. -/
def reverseTree (base : Nat) : Nat → Nat → Decode Nat
  | 0, _ => pure 0
  | count + 1, path => do
    let low ← bit (base + path)
    return low + 2 * (← reverseTree base count (2 * path + low))

/-- Bits with even chances behind those of `high`, most significant first. -/
def direct : Nat → Nat → Decode Nat
  | 0, high => pure high
  | count + 1, high => do
    widen
    let next ← modifyGet Coder.halve
    direct count (2 * high + next.toNat)

end LinkArchive.Compressed.Lzma
