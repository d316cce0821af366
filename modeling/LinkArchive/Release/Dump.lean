import LinkArchive.Dump.Reader
import LinkArchive.Release.Error
import LinkArchive.Release.Member
import LinkArchive.Validator

/-! A dump is read from the bytes of a member: they are verified, expanded and read as records, and
the verdict comes behind the records. -/

namespace LinkArchive

structure WalkOptions where
  requireSeparator : Bool := false
  /-- Stored members are held against the checksums that the container states. -/
  verifyCrc32 : Bool := true
  memberDigests : List (String × DigestSet) := []

namespace WalkOptions

def ownDigests (options : WalkOptions) (crc32 : Option UInt32) : DigestSet :=
  match crc32 with
  | some checksum =>
    if options.verifyCrc32 then DigestSet.empty.withCrc32 checksum else DigestSet.empty
  | none => DigestSet.empty

/-- Digests given by name go before the checksum of the container. -/
def digestsFor (options : WalkOptions) (name : String) (crc32 : Option UInt32) : DigestSet :=
  match options.memberDigests.lookup name with
  | some given => (options.ownDigests crc32).merge given
  | none => options.ownDigests crc32

end WalkOptions

/-! ### Content -/

structure DumpContent where
  header : List MetaField := []
  /-- The records and bad lines up to the end, or up to where reading failed. -/
  items : List DumpReader.Item := []
  ending : Except MemberFault Nat

namespace DumpReader.Item

def failure? (item : Item) : Option ReadError :=
  match item.result with
  | .error (.io error) => some error
  | _ => none

def isRecord (item : Item) : Bool := item.result.isOk

end DumpReader.Item

namespace DumpContent

def ofHeader : DumpError → DumpContent
  | .io error => { ending := .error (.ofReadError error) }
  | error => { ending := .error (.dump error) }

/-- Reading ends with the first failure of the items or else with that of the bytes. -/
def endingOf (items : List DumpReader.Item) (bytes : Validator) : Except MemberFault Nat :=
  match items.findSome? (·.failure?) with
  | some error => .error (.ofReadError error)
  | none => bytes.finish.mapError .ofVerifyError

def ofReader (reader : DumpReader) (bytes : Validator) : DumpContent :=
  match reader.header with
  | (.error error, _) => ofHeader error
  | (.ok header, reader) =>
    let items := reader.readAll.1
    { header, items := items.filter (·.failure?.isNone), ending := endingOf items bytes }

def ofSource (source : Source) (digests : DigestSet) (compression : Compression)
    (width : Option Nat) (requireSeparator : Bool) : DumpContent :=
  let bytes := Validator.ofSource source digests
  let (data, failure, _) := bytes.readToEnd
  let records := (compression.expand data).source failure
  -- what the records leave unread is verified as well: `Validator.finish_reads`
  ofReader (DumpReader.ofSource records (.fixed width) { requireSeparator }) bytes

end DumpContent

namespace Zip.Entry

/-- What is stored is taken as it is, for its checksum; other content is checked by the container's
own reader. -/
def dumpBytes (entry : Entry) : Option Source × Option UInt32 :=
  if entry.stored then (some entry.raw, some entry.crc32) else (entry.content, none)

def dump (entry : Entry) (compression : Compression) (width : Option Nat)
    (options : WalkOptions) : DumpContent :=
  match entry.dumpBytes with
  | (none, _) => { ending := .error .unopened }
  | (some source, crc32) =>
    DumpContent.ofSource source (options.digestsFor entry.name crc32) compression width
      options.requireSeparator

end Zip.Entry

end LinkArchive
