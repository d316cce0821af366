import LinkArchive.Compressed.Deflate
import LinkArchive.Zip.Record

/-! The entries of a zip file with their data, both as it is in the file and expanded. -/

namespace LinkArchive.Zip

structure Entry where
  index : Nat
  name : String
  stored : Bool := true
  crc32 : UInt32 := 0
  raw : Source := []
  content : Option Source := none
  deriving DecidableEq

def checked (crc32 : UInt32) (content : Bytes) : Source :=
  Source.putBack content
    (if Digest.Crc32.checksum content = crc32 then [] else [.failure Expansion.fault])

/-- Content that ends too early is still checked. -/
def inflated (crc32 : UInt32) (data : Bytes) : Source :=
  let expansion := Expand.run {} Compressed.Deflate.expand data
  match expansion.ending with
  | .broken => expansion.source none
  | _ => checked crc32 expansion.output

/-- Only plain (0) and deflated (8) content that is not encrypted can be opened. Content in any
other method (deflate64, bzip2, LZMA, Zstandard, xz, PPMd) is taken for content that cannot. -/
def contentOf (record : DirectoryRecord) (data : Bytes) : Option Source :=
  if record.isEncrypted then none
  else if record.method = 0 then some (checked record.crc32 data)
  else if record.method = 8 then some (inflated record.crc32 data)
  else none

def isDirectoryName (name : String) : Bool :=
  match name.toList.getLast? with
  | some last => last == '/' || last == '\\'
  | none => false

def Entry.ofRecord (file : Bytes) (index : Nat) (record : DirectoryRecord) (place : Nat) : Entry :=
  let data := (file.drop place).take record.size
  { index
    name := record.name
    stored := record.method = 0
    crc32 := record.crc32
    raw := Source.putBack data []
    content := contentOf record data }

end LinkArchive.Zip
