import LinkArchive.Compressed.Lzma.Symbol

/-! The two formats around LZMA symbols: files of the older format, and the chunks in xz blocks. -/

namespace LinkArchive.Compressed.Lzma

def roundWindow (size : Nat) : Nat := (max size 4096 + 15) / 16 * 16

/-- Powers of two and sums of two neighbours of them, and the two ends of the range. -/
def isUsualWindow (size : Nat) : Bool :=
  size = 0 || size = 0xffffffff ||
    (List.range 32).any fun place => size = Nat.pow 2 place || size = 3 * Nat.pow 2 place

def unknownLength : Nat := 0xffffffffffffffff

def lengthLimit : Nat := 0x4000000000

def propertiesOf (byte : UInt8) : Expand Properties :=
  match Properties.ofByte? byte with
  | none => Expand.broken
  | some properties => pure properties

def expand : Expand Unit := do
  let properties ← propertiesOf (← Expand.byte)
  let window ← Expand.littleEndian 4
  Expand.require (isUsualWindow window)
  let length ← Expand.littleEndian 8
  Expand.require (length = unknownLength || length < lengthLimit)
  let size := (← get).input.length
  let coder : Coder := { window := roundWindow window, allowance := size }
  let symbols : Decode Unit := do
    begin
    if length = unknownLength then marked (100 * size) else sized length
    finish
  discard (symbols.run (coder.reset properties))
  Expand.require (← Expand.atEnd)

end LinkArchive.Compressed.Lzma

namespace LinkArchive.Compressed.Lzma.Chunk

structure Due where
  window : Bool := true
  properties : Bool := true

def number : Expand Nat := do
  let high ← Expand.byte
  return 256 * high.toNat + (← Expand.byte).toNat

def symbols (control : Nat) : Decode Unit := do
  let size := control % 32 * 65536 + (← number) + 1
  let allowance := (← number) + 1
  if 0xc0 ≤ control then
    let properties ← propertiesOf (← Expand.byte)
    modify fun coder => coder.reset properties
  else if 0xa0 ≤ control then modify fun coder => coder.reset coder.properties
  modify fun coder => { coder with allowance }
  begin
  sized size
  finish
  Expand.require ((← get).allowance == 0)

def chunk (control : Nat) (due : Due) : Decode Due := do
  let due : Due := if 0xe0 ≤ control || control = 1 then {} else due
  Expand.require (!due.window || 0xe0 ≤ control || control = 1)
  if due.window then
    let start ← Expand.size
    modify fun coder => { coder with start }
  if 0x80 ≤ control then
    Expand.require (0xc0 ≤ control || !due.properties)
    symbols control
    return { window := false, properties := false }
  else
    Expand.require (control ≤ 2)
    Expand.pass ((← number) + 1)
    return { due with window := false }

/-- Each chunk takes a byte, so `fuel` bytes are enough. -/
def chunks : Nat → Due → Decode Unit
  | 0, _ => Expand.broken
  | fuel + 1, due => do
    let control := (← Expand.byte).toNat
    if control ≠ 0 then chunks fuel (← chunk control due)

def expand (window : Nat) : Expand Unit := do
  let coder : Coder := { window := roundWindow window }
  discard ((chunks ((← get).input.length + 1) {}).run coder)

end LinkArchive.Compressed.Lzma.Chunk
