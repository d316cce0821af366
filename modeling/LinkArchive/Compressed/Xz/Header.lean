import LinkArchive.Compressed.Expand
import LinkArchive.Digest.Crc
import LinkArchive.Digest.Sha256

/-! The headers and footers of an xz stream and its blocks. -/

namespace LinkArchive.Compressed.Xz

open Expand

inductive Check where
  | none
  | crc32
  | crc64
  | sha256
  | other (size : Nat)
  deriving DecidableEq, Repr

namespace Check

def ofNumber (number : Nat) : Check :=
  match number with
  | 0 => .none
  | 1 => .crc32
  | 4 => .crc64
  | 10 => .sha256
  | n => .other (4 * Nat.pow 2 ((n - 1) / 3))

def size : Check → Nat
  | none => 0
  | crc32 => 4
  | crc64 => 8
  | sha256 => 32
  | other size => size

def accepts (content : Bytes) : Check → Bytes → Bool
  | none, _ => true
  | crc32, value => Bytes.littleEndian value == (Digest.Crc32.checksum content).toNat
  | crc64, value => Bytes.littleEndian value == (Digest.Crc64.checksum content).toNat
  | sha256, value => value == Digest.sha256.digest content
  | other _, _ => true

end Check

def magic : Bytes := [0xfd, 0x37, 0x7a, 0x58, 0x5a, 0x00]

def endMagic : Bytes := [0x59, 0x5a]

def isChecksum (number content : Bytes) : Bool :=
  Bytes.littleEndian number == (Digest.Crc32.checksum content).toNat

def streamHeader : Expand Bytes := do
  let header ← bytes 12
  let flags := (header.drop 6).take 2
  require (magic.isPrefixOf header && isChecksum (header.drop 8) flags)
  require (flags.getD 0 0 == 0 && flags.getD 1 0 < 16)
  return flags

def checkOf (flags : Bytes) : Check := Check.ofNumber (flags.getD 1 0).toNat

def streamFooter (flags : Bytes) (indexSize : Nat) : Expand Unit := do
  let footer ← bytes 12
  let content := (footer.drop 4).take 6
  require (endMagic == footer.drop 10 && isChecksum (footer.take 4) content)
  require (content.drop 4 == flags && 4 * (Bytes.littleEndian (content.take 4) + 1) == indexSize)

/-! ### Numbers -/

/-- Seven bits a byte, least significant first; `more` bytes may follow the first. -/
def numberFrom (isFirst : Bool) : Nat → Expand Nat
  | 0 => do
    let last ← byte
    require (last < 0x80 && last != 0)
    return last.toNat
  | more + 1 => do
    let first ← byte
    if 0x80 ≤ first then return first.toNat % 128 + 128 * (← numberFrom false more)
    require (isFirst || first != 0)
    return first.toNat

def number : Expand Nat := numberFrom true 8

/-! ### Block headers -/

structure BlockHeader where
  size : Nat
  compressed : Option Nat
  content : Option Nat
  window : Nat

def optionalNumber (present : Bool) : Expand (Option Nat) :=
  if present then some <$> number else pure none

def windowOf (value : Nat) : Nat :=
  if value = 40 then 0xffffffff else (2 + value % 2) * Nat.pow 2 (value / 2 + 11)

def chunkFilter : Nat := 0x21

/-- LZMA2 is the only filter that is known. A block that has another one before it, such as a delta
or BCJ filter, is taken for malformed. -/
def blockFields (size : Nat) : Expand BlockHeader := do
  let flags ← byte
  require (flags &&& 0x3f == 0)
  let compressed ← optionalNumber (flags &&& 0x40 != 0)
  let content ← optionalNumber (flags &&& 0x80 != 0)
  require (compressed != some 0)
  let filter ← number
  let propertySize ← number
  require (filter == chunkFilter && propertySize == 1)
  let window := (← byte).toNat
  require (window ≤ 40)
  zeros (← get).input.length
  return { size, compressed, content, window := windowOf window }

/-- Takes a part of the input that is given beforehand; it is malformed if it ends too early. -/
def within (part : Bytes) (take : Expand α) : Expand α := fun w =>
  match take { w with input := part, taken := 1, pace := { piece := part.length + 2 } } with
  | .ok value _ => .ok value w
  | .error _ _ => .error .broken w

def blockHeader (first : UInt8) : Expand BlockHeader := do
  let size := 4 * (first.toNat + 1)
  let rest ← bytes (size - 1)
  let fields := rest.take (size - 5)
  require (isChecksum (rest.drop (size - 5)) (first :: fields))
  within fields (blockFields size)

end LinkArchive.Compressed.Xz
