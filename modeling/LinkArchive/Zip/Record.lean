import LinkArchive.Digest.Crc

/-! The records of a zip file: one for each entry in the central directory, a header before the data
of each, and one at the end. -/

namespace LinkArchive.Zip

def field (record : Bytes) (place count : Nat) : Nat :=
  Bytes.littleEndian ((record.drop place).take count)

def slice? (data : Bytes) (place count : Nat) : Option Bytes :=
  let bytes := (data.drop place).take count
  if bytes.length = count then some bytes else none

def record? (data signature : Bytes) (place count : Nat) : Option Bytes :=
  (slice? data place count).filter signature.isPrefixOf

/-! ### The end record -/

structure EndRecord where
  place : Nat
  /-- The number of the file among those that make up the archive. -/
  disk : Nat
  directoryDisk : Nat
  count : Nat
  size : Nat
  directory : Nat

namespace EndRecord

def signature : Bytes := [0x50, 0x4b, 5, 6]

/-- Counts and places are those of the record itself; no Zip64 record with greater ones is read. -/
def at? (data : Bytes) (place : Nat) : Option EndRecord := do
  let record ← record? data signature place 22
  let _ ← slice? data (place + 22) (field record 20 2)
  return {
    place
    disk := field record 4 2
    directoryDisk := field record 6 2
    count := field record 8 2
    size := field record 12 4
    directory := field record 16 4 }

end EndRecord

/-! ### Entries of the directory -/

structure DirectoryRecord where
  name : String
  flags : Nat
  method : Nat
  crc32 : UInt32
  size : Nat
  header : Nat
  length : Nat

namespace DirectoryRecord

def signature : Bytes := [0x50, 0x4b, 1, 2]

def isTimestamps (content : Bytes) : Bool :=
  let flags := content.headD 0
  let stated := (List.range 8).countP fun place => flags.toNat.testBit place
  (content.length = 5 || content.length = 1 + 4 * stated) && flags &&& 7 != 0

/-- The name that an extra field gives instead of `name`, which it has the checksum of. -/
def replacement? (name content : Bytes) : Option String := do
  let _ ← slice? content 0 5
  if field content 1 4 = (Digest.Crc32.checksum name).toNat then Bytes.toText? (content.drop 5)
  else none

def nameAfterField? (rawName : Bytes) (name : String) (kind : Nat) (content : Bytes) :
    Option String :=
  if kind = 0x7075 then replacement? rawName content
  else if kind = 0x5455 then if isTimestamps content then some name else none
  else some name

def nameAfterFields? (rawName : Bytes) (name : String) : Bytes → Option String
  | kind0 :: kind1 :: size0 :: size1 :: rest => do
    let size := Bytes.littleEndian [size0, size1]
    let content ← slice? rest 0 size
    let name ← nameAfterField? rawName name (Bytes.littleEndian [kind0, kind1]) content
    nameAfterFields? rawName name (rest.drop size)
  | [] => some name
  | _ => none
termination_by bytes => bytes.length
decreasing_by simp only [List.length_drop, List.length_cons]; omega

def hasUtf8Name (flags : Nat) : Bool := flags.testBit 11

/-- Sizes and places are those of the record itself; no Zip64 extra field with greater ones is
read. -/
def at? (data : Bytes) (place : Nat) : Option DirectoryRecord := do
  let record ← record? data signature place 46
  let flags := field record 8 2
  let rawName ← slice? data (place + 46) (field record 28 2)
  let extra ← slice? data (place + 46 + rawName.length) (field record 30 2)
  let comment ← slice? data (place + 46 + rawName.length + extra.length) (field record 32 2)
  let name := if hasUtf8Name flags then Text.ofDoubtful rawName else Text.ofCodePage rawName
  return {
    name := ← nameAfterFields? rawName name extra
    flags
    method := field record 10 2
    crc32 := UInt32.ofNat (field record 16 4)
    size := field record 20 4
    header := field record 42 4
    length := 46 + rawName.length + extra.length + comment.length }

def isEncrypted (record : DirectoryRecord) : Bool := record.flags.testBit 0

end DirectoryRecord

/-! ### Headers of entries -/

def headerSignature : Bytes := [0x50, 0x4b, 3, 4]

def dataPlace? (data : Bytes) (place : Nat) : Option Nat := do
  let header ← record? data headerSignature place 30
  return place + 30 + field header 26 2 + field header 28 2

end LinkArchive.Zip
