import LinkArchive.Proofs.Files.Below
import LinkArchive.Proofs.Listing.Item

/-!
# What the verification of an item looks at

The listing of an item and the files with local names are found below the directory of the item. A
name that leads out of the directory is followed there, so the verdict on an item is known from the
directory and from what such names lead to: `Item.verify_eq_of_sameBelow`.
-/

namespace LinkArchive

namespace Item

open FileTree PathName

variable {first second : FileTree} {dir : String}

theorem openListing_eq (same : SameBelow dir first second) :
    openListing first (listingPath dir) = openListing second (listingPath dir) := by
  have opened := openFile_join_eq same (isLocal_of_isPart (isPart_listingName dir))
  rw [openListing, openListing, listingPath, opened]

theorem verifyFiles_congr {entries : List FileEntry}
    (opened : ∀ entry ∈ entries,
      first.openFile (join dir entry.name) = second.openFile (join dir entry.name)) :
    verifyFiles first dir entries = verifyFiles second dir entries := by
  induction entries with
  | nil => rfl
  | cons entry rest ih =>
    obtain ⟨here, others⟩ := List.forall_mem_cons.mp opened
    rw [verifyFiles_cons, verifyFiles_cons, verifyFile_congr here, ih others]

/-- An item has the same verdict in two trees that are the same below its directory, if those of the
listed names that lead out of the directory lead to the same in both. -/
theorem verify_eq_of_sameBelow (same : SameBelow dir first second)
    (alike : ∀ listing, openListing first (listingPath dir) = .ok listing →
      ∀ entry ∈ listed dir listing, isLocal entry.name = false →
        first.openFile (join dir entry.name) = second.openFile (join dir entry.name)) :
    verify first dir = verify second dir := by
  have listings := openListing_eq same
  cases opened : openListing first (listingPath dir) with
  | error error =>
    rw [verify, verify, ← listings, opened]
    rfl
  | ok listing =>
    rw [verify_eq opened, verify_eq (listings.symm.trans opened)]
    apply verifyFiles_congr
    intro entry member
    cases stays : isLocal entry.name with
    | true => exact openFile_join_eq same stays
    | false => exact alike listing opened entry member stays

/-- An item that lists a file by way of a directory in it, and a file beside its own directory. -/
def dottedItem : FileTree where
  files := [
    (["item", "item_files.xml"], Bytes.ofText (String.join [
      "<files><file name=\"./sub/../a\"><crc32>a684c7c6</crc32></file>",
      "<file name=\"../shared\"><crc32>a684c7c6</crc32></file></files>"])),
    (["item", "a"], [48, 49, 50, 51, 52, 53, 54, 55, 56, 57]),
    (["item", "sub", "b"], []),
    (["shared"], [48, 49, 50, 51, 52, 53, 54, 55, 56, 57])]

theorem names_of_dottedItem {listing : FileListing}
    (opened : openListing dottedItem (listingPath "item") = .ok listing) :
    (listed "item" listing).map (·.name) = ["./sub/../a", "../shared"] := by
  have names : (openListing dottedItem (listingPath "item")).toOption.map
      (fun listing => (listed "item" listing).map (·.name)) =
        some ["./sub/../a", "../shared"] := by
    decide +kernel
  rw [opened] at names
  exact Option.some.inj names

theorem verify_dottedItem_withFile :
    SameBelow "item" dottedItem (dottedItem.withFile ["other"] [0]) ∧
      verify dottedItem "item" = verify (dottedItem.withFile ["other"] [0]) "item" ∧
        verify dottedItem "item" = .ok () := by
  have same : SameBelow "item" dottedItem (dottedItem.withFile ["other"] [0]) :=
    sameBelow_withFile (by decide +kernel) (by decide +kernel) (by decide +kernel)
      (by decide +kernel) [0]
  refine ⟨same, verify_eq_of_sameBelow same ?_, by decide +kernel⟩
  intro listing opened entry member leadsOut
  have name : entry.name = "./sub/../a" ∨ entry.name = "../shared" := by
    have inNames := List.mem_map_of_mem (f := fun entry => entry.name) member
    rw [names_of_dottedItem opened] at inNames
    simpa using inNames
  rcases name with inside | outside
  · rw [inside] at leadsOut
    exact absurd leadsOut (by decide +kernel)
  · rw [outside]
    decide +kernel

/-- An item that lists a file beside its directory. -/
def leakyItem : FileTree where
  files := [(["item", "item_files.xml"],
    Bytes.ofText "<files><file name=\"../outside\"/></files>")]

/-- Whether there is a file beside the directory of an item makes a difference to its verdict. -/
theorem verify_leakyItem_withFile :
    SameBelow "item" leakyItem (leakyItem.withFile ["outside"] [120]) ∧
      verify leakyItem "item" = .error (.file "../outside" (.io ⟨.notFound, none⟩)) ∧
        verify (leakyItem.withFile ["outside"] [120]) "item" = .ok () := by
  refine ⟨?_, by decide +kernel, by decide +kernel⟩
  exact sameBelow_withFile (by decide +kernel) (by decide +kernel) (by decide +kernel)
    (by decide +kernel) _

end Item

end LinkArchive
