import LinkArchive.Proofs.Release.Metadata.Arrays
import LinkArchive.Proofs.Release.Metadata.Whole
import LinkArchive.Proofs.Release.Walk
import LinkArchive.Release.Visit

/-!
# The metadata document of a release

A metadata document is accepted for what it says, and never if damage ends it:
`Zip.Entry.metadata_of_whole`, `Zip.Entry.metadata_of_damage`. What a document that is no object
comes to is told by `Visit.release_of_other_document`.
-/

namespace LinkArchive

/-! ### Documents in entries -/

/-- What can be read of the metadata document in an entry, and whether damage ends it there. -/
def Zip.Entry.document? (entry : Zip.Entry) : Option (Bytes × Bool) :=
  entry.content.map fun source =>
    let (data, failure, _) := source.readToEnd
    let (document, damage, _) := ((Compressed.Xz.expand 1 data).source failure).readToEnd
    (document, damage.isSome)

def MemberFault.ofJsonError : Json.JsonError → MemberFault
  | .io => unreadable
  | error => metadata error

variable {entry : Zip.Entry} {bytes : Bytes}

theorem Zip.Entry.metadata_of_read {damaged : Bool}
    (read : entry.document? = some (bytes, damaged)) :
    entry.metadata = (ReleaseMetadata.ofJson damaged bytes).mapError .ofJsonError := by
  obtain ⟨source, opened, same⟩ := Option.map_eq_some_iff.mp read
  obtain ⟨rfl, rfl⟩ := Prod.mk.inj same
  unfold metadata
  rw [opened]
  dsimp only
  cases ReleaseMetadata.ofJson _ _ with
  | ok m => rfl
  | error error => cases error <;> rfl

/-- A document that was read to its end is judged for what it says. -/
theorem Zip.Entry.metadata_of_whole (whole : entry.document? = some (bytes, false)) :
    entry.metadata = (ReleaseMetadata.ofJson false bytes).mapError .metadata := by
  have uncut := ReleaseMetadata.uncut_ofJson bytes
  rw [metadata_of_read whole]
  cases decoded : ReleaseMetadata.ofJson false bytes with
  | ok m => rfl
  | error error =>
    cases error with
    | io => exact absurd decoded uncut
    | _ => rfl

theorem ReleaseMetadata.ofJson_cut (bytes : Bytes) (m : ReleaseMetadata) :
    ofJson true bytes ≠ .ok m := by
  intro accepted
  obtain ⟨⟨result, left⟩, -, same⟩ := bind_eq_ok_iff.mp accepted
  dsimp only at same
  split at same <;> cases same

theorem Zip.Entry.metadata_of_damage (damaged : entry.document? = some (bytes, true))
    (m : ReleaseMetadata) : entry.metadata ≠ .ok m := by
  rw [metadata_of_read damaged]
  cases decoded : ReleaseMetadata.ofJson true bytes with
  | ok m => exact absurd decoded (ReleaseMetadata.ofJson_cut bytes m)
  | error error => nofun

namespace Visit

open Json (Blank Document)

variable {σ : Type} {container : String} {file : Bytes} {entries : List Zip.Entry}
variable {found : Inventory}

/-- A release whose metadata document is refused is not gone into. -/
theorem release_of_refused (listed : Zip.entries? file = some entries)
    (sorted : Inventory.ofEntries container entries = .ok found)
    (whole : found.metadata.document? = some (bytes, false)) {error : Json.JsonError}
    (refused : ReleaseMetadata.ofJson false bytes = .error error) (handler : Handler σ)
    (options : WalkOptions) (state : σ) :
    release handler container options file state =
      .ofResult (.error (.member ⟨⟨container, found.metadata.name⟩, .metadata error⟩)) state := by
  have metadata := Zip.Entry.metadata_of_whole whole
  rw [refused] at metadata
  simp only [release, listed, sorted, metadata]
  rfl

theorem release_of_accepted (listed : Zip.entries? file = some entries)
    (sorted : Inventory.ofEntries container entries = .ok found)
    (whole : found.metadata.document? = some (bytes, false)) {m : ReleaseMetadata}
    (accepted : ReleaseMetadata.ofJson false bytes = .ok m) (handler : Handler σ)
    (options : WalkOptions) (state : σ) :
    release handler container options file state =
      inventory handler container options found m state := by
  have metadata := Zip.Entry.metadata_of_whole whole
  rw [accepted] at metadata
  simp only [release, listed, sorted, metadata]
  rfl

theorem metadata_of_inventory {handler : Handler σ} {options : WalkOptions} {m : ReleaseMetadata}
    {state : σ} {report : ReleaseReport}
    (reported : (inventory handler container options found m state).result = .ok report) :
    report.metadata = m := by
  unfold inventory Handled.andThen at reported
  dsimp only at reported
  split at reported
  · cases reported
  · obtain rfl := Except.ok.inj reported
    rfl

/-- A document that is no object is refused, and the release with it, unless it is an array whose
elements fit the first fields one by one. Then these are the metadata of the release. -/
theorem release_of_other_document {value : Json.Value} (document : Document value bytes)
    (no_object : ∀ members, value ≠ .object members) :
    ((∃ m, ReleaseMetadata.ofJson false bytes = .ok m) ↔
      ∃ elements, value = .array elements ∧
        List.Forall₂ (fun field element => ∃ x, ReleaseMetadata.Decodes field.shape element x)
          (ReleaseMetadata.Field.all.take elements.length) elements) ∧
    ∀ (handler : Handler σ) container options file entries found state,
      Zip.entries? file = some entries → Inventory.ofEntries container entries = .ok found →
      found.metadata.document? = some (bytes, false) →
      (∀ error, ReleaseMetadata.ofJson false bytes = .error error →
        release handler container options file state =
          .ofResult (.error (.member ⟨⟨container, found.metadata.name⟩, .metadata error⟩)) state) ∧
      (∀ m, ReleaseMetadata.ofJson false bytes = .ok m →
        release handler container options file state =
          inventory handler container options found m state) ∧
      ∀ report, (release handler container options file state).result = .ok report →
        ∃ elements, value = .array elements ∧ ReleaseMetadata.Lists elements report.metadata := by
  have accepted := ReleaseMetadata.ofJson_eq_ok_iff_lists document no_object
  constructor
  · simp only [accepted, ← ReleaseMetadata.exists_lists_iff]
    constructor
    · rintro ⟨m, elements, same, lists⟩
      exact ⟨elements, same, m, lists⟩
    · rintro ⟨elements, same, m, lists⟩
      exact ⟨m, elements, same, lists⟩
  · intro handler container options file entries found state listed sorted whole
    refine ⟨?_, ?_, ?_⟩
    · intro error refused
      exact release_of_refused listed sorted whole refused handler options state
    · intro m decoded
      exact release_of_accepted listed sorted whole decoded handler options state
    · intro report reported
      cases decoded : ReleaseMetadata.ofJson false bytes with
      | error error =>
        rw [release_of_refused listed sorted whole decoded] at reported
        cases reported
      | ok m =>
        rw [release_of_accepted listed sorted whole decoded] at reported
        rw [metadata_of_inventory reported]
        exact (accepted m).mp decoded

/-! ### A small release with other metadata -/

/-- The small release with another metadata document, which has two bytes as well. -/
def smallReleaseWith (document : Bytes) : Bytes :=
  let compressed := (smallRelease.drop 44).take 27 ++ document ++ (smallRelease.drop 73).take 23
  let checksum := Bytes.ofNatLittleEndian 4 (Digest.Crc32.checksum compressed).toNat
  smallRelease.take 14 ++ checksum ++ (smallRelease.drop 18).take 26 ++ compressed ++
    (smallRelease.drop 96).take 167 ++ checksum ++ smallRelease.drop 267

theorem exists_document (container : String) (file bytes : Bytes)
    (evaluated : ((Zip.entries? file).bind fun entries =>
      (Inventory.ofEntries container entries).toOption.bind (·.metadata.document?)) =
        some (bytes, false)) :
    ∃ entries found, Zip.entries? file = some entries ∧
      Inventory.ofEntries container entries = .ok found ∧
      found.metadata.document? = some (bytes, false) := by
  obtain ⟨entries, listed, rest⟩ := Option.bind_eq_some_iff.mp evaluated
  obtain ⟨found, sorted, whole⟩ := Option.bind_eq_some_iff.mp rest
  refine ⟨entries, found, listed, ?_, whole⟩
  cases outcome : Inventory.ofEntries container entries with
  | error error =>
    rw [outcome] at sorted
    cases sorted
  | ok other =>
    rw [outcome] at sorted
    exact congrArg _ (Option.some.inj sorted)

/-- A release with a number for its metadata. -/
theorem release_of_number :
    let file := smallReleaseWith [49, 50]
    let twelve : Json.NumberLiteral := { whole := [1, 2] }
    let error : Json.JsonError := .data (.invalidType (.integer 12) .record)
    Document (.number twelve) [49, 50] ∧ (∀ members, Json.Value.number twelve ≠ .object members) ∧
      ∃ entries found, Zip.entries? file = some entries ∧
        Inventory.ofEntries "c" entries = .ok found ∧
        found.metadata.document? = some ([49, 50], false) ∧
        ReleaseMetadata.ofJson false [49, 50] = .error error ∧
        release counting "c" {} file 0 =
          .ofResult (.error (.member ⟨⟨"c", found.metadata.name⟩, .metadata error⟩)) 0 := by
  intro file twelve error
  have none : Blank [] := by decide
  have document : Document (.number twelve) [49, 50] := .around none (.number twelve) none
  have no_object : ∀ members, Json.Value.number twelve ≠ .object members := nofun
  obtain ⟨entries, found, listed, sorted, whole⟩ :=
    exists_document "c" (smallReleaseWith [49, 50]) [49, 50] (by decide +kernel)
  have refused : ReleaseMetadata.ofJson false [49, 50] = .error error := rfl
  have stopped := (release_of_other_document document no_object).2 counting "c" {} file entries
    found 0 listed sorted whole
  exact ⟨document, no_object, entries, found, listed, sorted, whole, refused,
    stopped.1 error refused⟩

/-- An array without elements is taken for metadata: every field has the value of one that is
missing, and the release is gone through. -/
theorem release_of_emptyArray :
    let file := smallReleaseWith [91, 93]
    Document (.array []) [91, 93] ∧ (∀ members, Json.Value.array [] ≠ .object members) ∧
      ReleaseMetadata.ofJson false [91, 93] = .ok {} ∧
      ∃ entries found report, Zip.entries? file = some entries ∧
        Inventory.ofEntries "c" entries = .ok found ∧
        found.metadata.document? = some ([91, 93], false) ∧
        (release counting "c" {} file 0).result = .ok report ∧ report.metadata = {} := by
  intro file
  have none : Blank [] := by decide
  have decoded : ReleaseMetadata.ofJson false [91, 93] = .ok {} := rfl
  obtain ⟨entries, found, listed, sorted, whole⟩ :=
    exists_document "c" (smallReleaseWith [91, 93]) [91, 93] (by decide +kernel)
  have walks : (release counting "c" {} (smallReleaseWith [91, 93]) 0).result.toOption.isSome := by
    decide +kernel
  cases reported : (release counting "c" {} file 0).result with
  | error error =>
    rw [reported] at walks
    cases walks
  | ok report =>
    refine ⟨.around none (.emptyArray none) none, nofun, decoded, entries, found, report, listed,
      sorted, whole, rfl, ?_⟩
    rw [release_of_accepted listed sorted whole decoded] at reported
    exact metadata_of_inventory reported

end Visit

end LinkArchive
