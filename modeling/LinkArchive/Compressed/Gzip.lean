import LinkArchive.Compressed.Deflate
import LinkArchive.Digest.Crc

/-! The gzip format: members one after the other, each a header, a deflate stream, and the checksum
and length of what that holds. -/

namespace LinkArchive.Compressed.Gzip

open Expand

structure Flags where
  value : UInt8

namespace Flags

def hasChecksum (flags : Flags) : Bool := flags.value &&& 2 != 0

def hasExtra (flags : Flags) : Bool := flags.value &&& 4 != 0

def hasName (flags : Flags) : Bool := flags.value &&& 8 != 0

def hasComment (flags : Flags) : Bool := flags.value &&& 16 != 0

def isKnown (flags : Flags) : Bool := flags.value &&& 0xe0 == 0

end Flags

def textLimit : Nat := 65535

def zeroEnded : Nat → Expand Bytes
  | 0 => do
    let last ← byte
    require (last == 0)
    return [last]
  | limit + 1 => do
    let first ← byte
    if first == 0 then return [first]
    else return first :: (← zeroEnded limit)

def part (present : Bool) (take : Expand Bytes) : Expand Bytes :=
  if present then take else pure []

def extraFields : Expand Bytes := do
  let length ← bytes 2
  return length ++ (← bytes (Bytes.littleEndian length))

def header : Expand Unit := do
  let fixed ← bytes 10
  let flags : Flags := ⟨fixed.getD 3 0⟩
  require ([0x1f, 0x8b, 8].isPrefixOf fixed && flags.isKnown)
  let extra ← part flags.hasExtra extraFields
  let name ← part flags.hasName (zeroEnded textLimit)
  let comment ← part flags.hasComment (zeroEnded textLimit)
  if flags.hasChecksum then
    let checksum := (Digest.Crc32.checksum (fixed ++ extra ++ name ++ comment)).toNat
    require ((← littleEndian 2) == checksum % 0x10000)

def member : Expand Unit := do
  header
  let start ← size
  Deflate.expand
  settle
  let content ← outputFrom start
  let checksum ← littleEndian 4
  let length ← littleEndian 4
  require (checksum == (Digest.Crc32.checksum content).toNat &&
    length == content.length % 0x100000000)

/-- Each member takes a byte, so `fuel` bytes are enough. -/
def members : Nat → Expand Unit
  | 0 => broken
  | fuel + 1 => do
    member
    if !(← atEnd) then members fuel

def pace : Pace := { piece := 32768 }

def expand (data : Bytes) : Expansion := run pace (members (data.length + 1)) data

end LinkArchive.Compressed.Gzip
