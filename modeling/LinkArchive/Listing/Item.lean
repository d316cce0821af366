import LinkArchive.Files.Tree
import LinkArchive.Listing.Entry
import LinkArchive.Validator

/-! An item is a directory with a listing of its files. It is valid if every listed file but the
listing itself can be read and has the digests recorded for it. -/

namespace LinkArchive.Item

def listingName (dir : String) : String := (PathName.fileName? dir).getD "" ++ "_files.xml"

def listingPath (dir : String) : String := PathName.join dir (listingName dir)

def openListing (tree : FileTree) (path : String) : Except VerifyError FileListing :=
  match tree.openFile path with
  | .error fault => .error (.io fault)
  | .ok source =>
    match source.readToEnd with
    | (_, some _, _) => .error (.listing path)
    | (document, none, _) =>
      match FileListing.parse document with
      | .ok listing => .ok listing
      | .error _ => .error (.listing path)

/-- The file is opened first, then its digests are read. -/
def verifyFile (tree : FileTree) (dir : String) (entry : FileEntry) : Except VerifyError Nat := do
  let source ← (tree.openFile (PathName.join dir entry.name)).mapError .io
  let expected ← entry.digests.mapError .digest
  (Validator.ofSource source expected).finish

def verifyFiles (tree : FileTree) (dir : String) : List FileEntry → Except VerifyError Unit
  | [] => .ok ()
  | entry :: rest =>
    match verifyFile tree dir entry with
    | .error error => .error (.file entry.name error)
    | .ok _ => verifyFiles tree dir rest

def verify (tree : FileTree) (dir : String) : Except VerifyError Unit := do
  let listing ← openListing tree (listingPath dir)
  let listingName := (PathName.fileName? (listingPath dir)).getD ""
  verifyFiles tree dir (listing.files.filter (·.name != listingName))

end LinkArchive.Item
