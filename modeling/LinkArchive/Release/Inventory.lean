import LinkArchive.Release.Error
import LinkArchive.Release.Member
import LinkArchive.Release.Metadata.Reader

/-! What is in a release: exactly one metadata document, dumps, and members of no concern. -/

namespace LinkArchive

structure Inventory where
  metadata : Zip.Entry
  dumps : List Zip.Entry
  skipped : List Zip.Entry

namespace Inventory

def isMetadata (entry : Zip.Entry) : Bool := entry.kind == .metadata

/-- The document is most often the first or the last member, so these are looked at before all. -/
def metadata? (entries : List Zip.Entry) : Option Zip.Entry :=
  (entries.head?.toList ++ entries.getLast?.toList ++ entries).find? isMetadata

def ofEntries (container : String) (entries : List Zip.Entry) : Except ReleaseError Inventory :=
  if entries.isEmpty then .error (.emptyArchive container)
  else match metadata? entries with
    | none => .error (.missingMetadata container)
    | some metadata =>
      match entries.find? fun entry => isMetadata entry && entry.index != metadata.index with
      | some second => .error (.ambiguousMetadata container metadata.name second.name)
      | none => .ok {
          metadata
          dumps := entries.filter (·.kind.isDump)
          skipped := entries.filter (·.kind == .other) }

end Inventory

/-- The document is read byte by byte, so damage counts only behind what is read of it. -/
def Zip.Entry.metadata (entry : Zip.Entry) : Except MemberFault ReleaseMetadata :=
  match entry.content with
  | none => .error .unopened
  | some source =>
    let (data, failure, _) := source.readToEnd
    let (document, damage, _) := ((Compressed.Xz.expand 1 data).source failure).readToEnd
    match ReleaseMetadata.ofJson damage.isSome document with
    | .ok metadata => .ok metadata
    | .error .io => .error .unreadable
    | .error error => .error (.metadata error)

end LinkArchive
