import LinkArchive.Compressed.Deflate.Bits

/-! The deflate format: blocks that are stored, or made of literals and of repetitions of earlier
output in a fixed prefix code or in one that the block brings along. -/

namespace LinkArchive.Compressed.Deflate

open ExpandBits

structure Codes where
  literals : PrefixCode
  distances : PrefixCode

def withBases (base : Nat) : List Nat → List (Nat × Nat)
  | [] => []
  | extra :: extras => (base, extra) :: withBases (base + Nat.pow 2 extra) extras

/-- Least length and extra bits of the length symbols, which follow the end symbol. -/
def lengths : Array (Nat × Nat) :=
  let extras := List.replicate 8 0 ++ [1, 2, 3, 4, 5].flatMap (List.replicate 4)
  ((withBases 3 extras).take 28 ++ [(258, 0)]).toArray

def distances : Array (Nat × Nat) :=
  let extras := List.replicate 4 0 ++ (List.range 13).flatMap fun place => [place + 1, place + 1]
  (withBases 1 extras).toArray

def endSymbol : Nat := 256

def value (table : Array (Nat × Nat)) (symbol : Nat) : ExpandBits Nat :=
  match table[symbol]? with
  | none => Expand.broken
  | some (base, extra) => do return base + (← number extra)

/-- Each symbol takes a bit, so `fuel` bits are enough. -/
def coded (codes : Codes) (start : Nat) : Nat → ExpandBits Unit
  | 0 => Expand.broken
  | fuel + 1 => do
    let literal ← symbol codes.literals
    if literal < endSymbol then
      Expand.emit (UInt8.ofNat literal)
      coded codes start fuel
    else if literal = endSymbol then return
    else
      let length ← value lengths (literal - endSymbol - 1)
      let distance ← value distances (← symbol codes.distances)
      Expand.require (distance ≤ (← Expand.size) - start)
      Expand.copy distance length
      coded codes start fuel

def stored : ExpandBits Unit := do
  align
  let length ← Expand.littleEndian 2
  let complement ← Expand.littleEndian 2
  Expand.require (length + complement = 0xffff)
  Expand.pass length

def fixedCodes : Option Codes := do
  let literals ← PrefixCode.ofLengths? false (List.replicate 144 8 ++ List.replicate 112 9 ++
    List.replicate 24 7 ++ List.replicate 8 8)
  let distances ← PrefixCode.ofLengths? false (List.replicate 32 5)
  return { literals, distances }

def lengthOrder : List Nat := [16, 17, 18, 0, 8, 7, 9, 6, 10, 5, 11, 4, 12, 3, 13, 2, 14, 1, 15]

def lastLength : List Nat → ExpandBits Nat
  | [] => Expand.broken
  | length :: _ => pure length

/-- `taken` are the lengths there are, in reverse. Every symbol adds one. -/
def wordLengths (code : PrefixCode) (total : Nat) : Nat → List Nat → ExpandBits (List Nat)
  | 0, _ => Expand.broken
  | fuel + 1, taken => do
    if taken.length = total then return taken.reverse
    let next ← symbol code
    let more ←
      if next < 16 then pure [next]
      else if next = 16 then do
        let last ← lastLength taken
        pure (List.replicate (3 + (← number 2)) last)
      else if next = 17 then do pure (List.replicate (3 + (← number 3)) 0)
      else do pure (List.replicate (11 + (← number 7)) 0)
    Expand.require (taken.length + more.length ≤ total)
    wordLengths code total fuel (more ++ taken)

def orderedLengths : List Nat → ExpandBits (List (Nat × Nat))
  | [] => pure []
  | symbol :: symbols => do
    let length ← number 3
    return (symbol, length) :: (← orderedLengths symbols)

def codeOf (sparse : Bool) (lengths : List Nat) : ExpandBits PrefixCode :=
  match PrefixCode.ofLengths? sparse lengths with
  | none => Expand.broken
  | some code => pure code

def ownCodes : ExpandBits Codes := do
  let literalCount := 257 + (← number 5)
  let distanceCount := 1 + (← number 5)
  let lengthCount := 4 + (← number 4)
  Expand.require (literalCount ≤ 286 && distanceCount ≤ 30)
  let ordered ← orderedLengths (lengthOrder.take lengthCount)
  let lengthCode ← codeOf false ((List.range 19).map fun symbol => (ordered.lookup symbol).getD 0)
  let total := literalCount + distanceCount
  let lengths ← wordLengths lengthCode total (total + 1) []
  Expand.require (lengths.getD endSymbol 0 != 0)
  let literals ← codeOf true (lengths.take literalCount)
  let distances ← codeOf true (lengths.drop literalCount)
  return { literals, distances }

def block (start fuel : Nat) : ExpandBits Bool := do
  let last ← bit
  match ← number 2 with
  | 0 => stored
  | 1 => match fixedCodes with
    | none => Expand.broken
    | some codes => coded codes start fuel
  | 2 => coded (← ownCodes) start fuel
  | _ => Expand.broken
  return last = 1

/-- Each block takes a bit, so `fuel` bits are enough. -/
def blocks (start fuel : Nat) : Nat → ExpandBits Unit
  | 0 => Expand.broken
  | rest + 1 => do if !(← block start fuel) then blocks start fuel rest

def expand : Expand Unit := do
  let start ← Expand.size
  let bits := 8 * (← get).input.length + 1
  discard ((blocks start bits bits).run {})

end LinkArchive.Compressed.Deflate
