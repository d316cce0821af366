import LinkArchive.Release.Inventory
import LinkArchive.Release.Event
import LinkArchive.Zip.Directory

/-! A walk goes through the dumps of a release in the order of the container. What happens on it is
settled by the container and the options alone. -/

namespace LinkArchive

structure Walk where
  report : ReleaseReport
  events : List Event

namespace Walk

def ofDump (metadata : ReleaseMetadata) (place : Location) (width : Option Nat)
    (content : DumpContent) : MemberReport × List Event :=
  let report := MemberReport.ofContent place width content
  let context : LinkContext := { metadata, header := content.header, width, place }
  (report, content.items.flatMap (Event.ofItem context) ++ Event.ofReport report)

/-- An entry that is no dump has nothing in it. -/
def ofEntry (container : String) (metadata : ReleaseMetadata) (options : WalkOptions)
    (entry : Zip.Entry) : MemberReport × List Event :=
  let place : Location := ⟨container, entry.name⟩
  match entry.kind with
  | .dump compression width =>
    ofDump metadata place width (entry.dump compression width options)
  | _ => ofDump metadata place none { ending := .ok 0 }

def ofInventory (container : String) (options : WalkOptions) (inventory : Inventory)
    (metadata : ReleaseMetadata) : Walk :=
  let dumps := inventory.dumps.map (ofEntry container metadata options)
  let members := dumps.map (·.1)
  let skipped := inventory.skipped.map (·.name)
  { report := { container, metadata, members, skipped }
    events := dumps.flatMap (·.2) }

def ofEntries (container : String) (options : WalkOptions) (entries : List Zip.Entry) :
    Except ReleaseError Walk := do
  let inventory ← Inventory.ofEntries container entries
  let place : Location := ⟨container, inventory.metadata.name⟩
  let metadata ← inventory.metadata.metadata.mapError fun fault => .member ⟨place, fault⟩
  return ofInventory container options inventory metadata

def ofZip (container : String) (options : WalkOptions) (file : Bytes) : Except ReleaseError Walk :=
  match Zip.entries? file with
  | none => .error (.corrupted container)
  | some entries => ofEntries container options entries

end Walk

end LinkArchive
