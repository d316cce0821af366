import LinkArchive.Proofs.Digest.Changes
import LinkArchive.Proofs.Dump.Failing
import LinkArchive.Proofs.Release.Isolation
import LinkArchive.Proofs.Release.Refusal
import LinkArchive.Proofs.Release.Visit

/-!
# Stored and deflated members

Whether a container keeps a dump as it is or deflated makes no difference to a visit:
`Visit.release_of_kept`. The checksum that is expected of stored bytes only is the one that they
have, so it changes no verdict: `WalkOptions.mismatch?_digestsFor`.
-/

namespace LinkArchive

open Dump

/-! ### Digests that are had anyway -/

theorem DigestSet.mismatch?_eq_findSome? (expected : DigestSet) (data : Bytes) :
    expected.mismatch? data = Algorithm.all.findSome? fun algorithm =>
      (expected.get? algorithm).bind fun digest =>
        if algorithm.digest data = digest then none
        else some ⟨algorithm, algorithm.digest data, digest⟩ := by
  rw [mismatch?, toList, ← List.head?_filterMap, List.filterMap_filterMap, List.head?_filterMap]
  congr 1
  funext algorithm
  cases expected.get? algorithm <;> rfl

/-- Digests that some data has make no difference to what is wrong with it. -/
theorem DigestSet.mismatch?_merge {set : DigestSet} {data : Bytes} (had : set.mismatch? data = none)
    (other : DigestSet) : (set.merge other).mismatch? data = other.mismatch? data := by
  rw [mismatch?_eq_findSome?, mismatch?_eq_findSome?]
  congr 1
  funext algorithm
  rw [get?_merge]
  cases other.get? algorithm with
  | some digest => rfl
  | none =>
    cases known : set.get? algorithm with
    | none => rfl
    | some digest => simp [mismatch?_eq_none.mp had algorithm digest known]

namespace WalkOptions

variable (options : WalkOptions) (name : String)

/-- The digests given for a member by its name. -/
def given : DigestSet := (options.memberDigests.lookup name).getD .empty

theorem digestsFor_eq_merge (crc32 : Option UInt32) :
    options.digestsFor name crc32 = (options.ownDigests crc32).merge (options.given name) := by
  unfold digestsFor given
  cases options.memberDigests.lookup name <;> rfl

theorem mismatch?_ownDigests (bytes : Bytes) :
    (options.ownDigests (some (Digest.Crc32.checksum bytes))).mismatch? bytes = none := by
  unfold ownDigests
  dsimp only
  split
  · apply DigestSet.mismatch?_eq_none.mpr
    intro algorithm digest known
    cases algorithm <;> cases known
    rfl
  · rfl

/-- Bytes with the right checksum are judged by the digests given for them, whether or not the
container's checksum is expected of them too. -/
theorem mismatch?_digestsFor {crc32 : Option UInt32} {bytes : Bytes}
    (right : ∀ checksum ∈ crc32, checksum = Digest.Crc32.checksum bytes) :
    (options.digestsFor name crc32).mismatch? bytes = (options.given name).mismatch? bytes := by
  rw [digestsFor_eq_merge]
  apply DigestSet.mismatch?_merge
  cases crc32 with
  | none => rfl
  | some checksum =>
    rw [right checksum rfl]
    exact options.mismatch?_ownDigests bytes

end WalkOptions

/-! ### The content of a dump -/

namespace DumpContent

variable {source rest : Source} {bytes : Bytes}

theorem ofReader_congr {bytesRead other : Validator} (same : bytesRead.finish = other.finish)
    (reader : DumpReader) : ofReader reader bytesRead = ofReader reader other := by
  simp only [ofReader, endingOf, same]

theorem ofSource_congr {other left : Source} {digests others : DigestSet}
    (data : source.readToEnd = (bytes, none, rest)) (also : other.readToEnd = (bytes, none, left))
    (same : digests.mismatch? bytes = others.mismatch? bytes) (compression : Compression)
    (width : Option Nat) (requireSeparator : Bool) :
    ofSource source digests compression width requireSeparator =
      ofSource other others compression width requireSeparator := by
  rw [ofSource_eq_ofReader compression width requireSeparator data,
    ofSource_eq_ofReader compression width requireSeparator also, same]
  apply ofReader_congr
  rw [Validator.finish_ofSource digests data, Validator.finish_ofSource others also,
    DigestSet.judge, DigestSet.judge, same]

/-- Reading a dump ends with a header that is wrong, with the failure behind its lines, or as
reading its bytes ends. -/
theorem ending_ofReader {failure : Option ReadError}
    (data : source.readToEnd = (bytes, failure, [])) (grammar : Grammar) (options : ReaderOptions)
    (bytesRead : Validator) :
    let ending := (ofReader (DumpReader.ofSource source grammar options) bytesRead).ending
    (∃ number flaw, HeaderError number flaw ∧ ending = .error (.dump flaw)) ∨
      ending = failure.elim (bytesRead.finish.mapError .ofVerifyError)
        (fun error => .error (.ofReadError error)) := by
  intro ending
  have coming : ∃ ahead, Lines.Ahead { source } ahead failure :=
    ⟨_, bytes, [], data, fun _ => rfl, rfl⟩
  obtain ⟨ahead, coming⟩ := coming
  obtain ⟨after, found, -, -, -, reached⟩ := DumpReader.header_of_ahead coming grammar options
  cases result : (DumpReader.headerEnd failure ahead).result with
  | error flaw =>
    rw [result] at found
    rcases DumpReader.malformed_of_header rfl found with ⟨error, rfl⟩ | malformed
    · right
      obtain rfl := DumpReader.failure_of_headerEnd result
      simp only [ending, ofReader, found, Except.map]
      rfl
    · left
      have there := malformed.there
      refine ⟨after.lineNumber, flaw, there, ?_⟩
      simp only [ending, ofReader, found, Except.map]
      cases there <;> rfl
  | ok _ =>
    right
    rw [result] at found
    obtain ⟨items, -⟩ := DumpReader.readAll_of_ahead (reached (by simp [result]))
    simp only [ending, ofReader, found, Except.map, endingOf, items, List.findSome?_append,
      findSome?_itemsOf, Option.none_or]
    cases failure <;> rfl

end DumpContent

/-! ### Members -/

namespace Zip.Entry

variable {entry : Zip.Entry} {bytes : Bytes}

/-- An entry that keeps some bytes as they are, and states their checksum. -/
structure Stores (entry : Zip.Entry) (bytes : Bytes) : Prop where
  stored : entry.stored = true
  crc32_eq : entry.crc32 = Digest.Crc32.checksum bytes
  raw_eq : entry.raw = Source.putBack bytes []

/-- An entry that keeps some bytes deflated, and states their checksum. -/
structure Deflates (entry : Zip.Entry) (bytes : Bytes) : Prop where
  deflated : entry.stored = false
  crc32_eq : entry.crc32 = Digest.Crc32.checksum bytes
  inflates : ∃ data, entry.content = some (inflated entry.crc32 data) ∧
    Expand.run {} Compressed.Deflate.expand data = ⟨bytes, .complete⟩

/-- An entry that has these bytes, and of which no checksum but theirs is expected. -/
structure Keeps (entry : Zip.Entry) (bytes : Bytes) : Prop where
  holds : entry.Holds bytes
  right : ∀ checksum ∈ entry.dumpBytes.2, checksum = Digest.Crc32.checksum bytes

theorem Stores.keeps (stores : entry.Stores bytes) : entry.Keeps bytes := by
  have read : entry.raw.readToEnd = (bytes, none, []) := by
    rw [stores.raw_eq, Source.readToEnd_putBack, Source.readToEnd, List.append_nil]
  refine ⟨⟨entry.raw, [], if_pos stores.stored, read⟩, ?_⟩
  intro checksum stated
  rw [dumpBytes, if_pos stores.stored] at stated
  rw [← Option.some.inj stated, stores.crc32_eq]

theorem Deflates.keeps (deflates : entry.Deflates bytes) : entry.Keeps bytes := by
  have unstored : ¬entry.stored = true := by simp [deflates.deflated]
  obtain ⟨data, content, inflates⟩ := deflates.inflates
  have whole : inflated entry.crc32 data = Source.putBack bytes [] := by
    simp only [inflated, inflates, checked, deflates.crc32_eq, if_true]
  have read : (inflated entry.crc32 data).readToEnd = (bytes, none, []) := by
    rw [whole, Source.readToEnd_putBack, Source.readToEnd, List.append_nil]
  refine ⟨⟨_, [], (if_neg unstored).trans content, read⟩, ?_⟩
  intro checksum stated
  rw [dumpBytes, if_neg unstored] at stated
  cases stated

variable {other : Zip.Entry}

/-- A dump is known from the bytes that its entry has, however it keeps them. -/
theorem Keeps.dump_eq (keeps : entry.Keeps bytes) (also : other.Keeps bytes)
    (named : other.name = entry.name) (compression : Compression) (width : Option Nat)
    (options : WalkOptions) :
    other.dump compression width options = entry.dump compression width options := by
  obtain ⟨source, rest, opened, data⟩ := keeps.holds
  obtain ⟨otherSource, left, otherOpened, otherData⟩ := also.holds
  have verdict : (options.digestsFor other.name other.dumpBytes.2).mismatch? bytes =
      (options.digestsFor entry.name entry.dumpBytes.2).mismatch? bytes := by
    rw [options.mismatch?_digestsFor other.name also.right,
      options.mismatch?_digestsFor entry.name keeps.right, named]
  rw [dump_of_opened opened, dump_of_opened otherOpened]
  exact DumpContent.ofSource_congr otherData data verdict compression width _

theorem kind_of_name (named : other.name = entry.name) : other.kind = entry.kind := by
  rw [kind, kind, named]

/-- Nothing that is told of a member says how its entry keeps it. -/
theorem Keeps.ofEntry_eq (keeps : entry.Keeps bytes) (also : other.Keeps bytes)
    (named : other.name = entry.name) (container : String) (metadata : ReleaseMetadata)
    (options : WalkOptions) :
    Walk.ofEntry container metadata options other =
      Walk.ofEntry container metadata options entry := by
  unfold Walk.ofEntry
  simp only [kind_of_name named, named, keeps.dump_eq also named]

/-- How a dump comes out that expands to the whole of its content: with all the digests given for
it, with a header that is malformed, or without the first digest that it lacks. -/
inductive CameOut (given : DigestSet) (bytes : Bytes) : Except MemberFault Nat → Prop where
  | good (passes : given.mismatch? bytes = none) : CameOut given bytes (.ok bytes.length)
  | malformed {number : Nat} {flaw : DumpError} (there : HeaderError number flaw) :
    CameOut given bytes (.error (.dump flaw))
  | differs {mismatch : Mismatch} (first : given.FirstMismatch bytes mismatch) :
    CameOut given bytes (.error (.checksum (.mismatch mismatch)))

theorem Keeps.cameOut (keeps : entry.Keeps bytes) {content : Bytes} {compression : Compression}
    (expanded : compression.expand bytes = ⟨content, .complete⟩) (width : Option Nat)
    (options : WalkOptions) :
    CameOut (options.given entry.name) bytes (entry.dump compression width options).ending := by
  obtain ⟨source, rest, opened, data⟩ := keeps.holds
  let digests := options.digestsFor entry.name entry.dumpBytes.2
  have verdict : digests.mismatch? bytes = (options.given entry.name).mismatch? bytes :=
    options.mismatch?_digestsFor entry.name keeps.right
  have judged := Validator.finish_ofSource digests data
  rw [DigestSet.judge, verdict] at judged
  rw [dump_of_opened opened,
    DumpContent.ofSource_eq_ofReader compression width options.requireSeparator data, verdict]
  have final : ∀ error ∈ ((options.given entry.name).mismatch? bytes).map fun mismatch =>
      (VerifyError.mismatch mismatch).toReadError, error.isInterrupted = false := by
    intro error same
    obtain ⟨mismatch, -, rfl⟩ := Option.map_eq_some_iff.mp same
    exact isInterrupted_mismatch mismatch
  have records := Expansion.readToEnd_source (compression.expand bytes) final
  rw [expanded] at records ⊢
  rcases DumpContent.ending_ofReader records (.fixed width)
    { requireSeparator := options.requireSeparator } (Validator.ofSource source digests) with
    ⟨number, flaw, there, failed⟩ | reached
  · rw [failed]
    exact .malformed there
  · rw [reached]
    cases found : (options.given entry.name).mismatch? bytes with
    | none =>
      rw [found] at judged
      simp only [Option.map_none, judged]
      exact .good found
    | some mismatch => exact .differs (DigestSet.firstMismatch_of_mismatch? found)

end Zip.Entry

/-! ### Containers -/

/-- Nothing that is told of a release says how the entry of a dump keeps it. -/
theorem Walk.ofZip_of_keeps {before after : List Zip.Entry} {entry other : Zip.Entry}
    {bytes file relisted : Bytes} (listed : Zip.entries? file = some (before ++ entry :: after))
    (also : Zip.entries? relisted = some (before ++ other :: after))
    (named : other.name = entry.name) (isDump : entry.kind.isDump = true)
    (keeps : entry.Keeps bytes) (otherKeeps : other.Keeps bytes) (container : String)
    (options : WalkOptions) : ofZip container options relisted = ofZip container options file := by
  have remains : other.kind.isDump = true := by
    rw [Zip.Entry.kind_of_name named]
    exact isDump
  have exchanged : Inventory.ofEntries container (before ++ other :: after) = _ :=
    Inventory.ofEntries_exchange isDump remains container
  simp only [ofZip, listed, also]
  cases sorted : Inventory.ofEntries container (before ++ entry :: after) with
  | error error =>
    rw [sorted] at exchanged
    rw [ofEntries, ofEntries, sorted, exchanged]
    rfl
  | ok inventory =>
    rw [sorted] at exchanged
    rw [ofEntries_of_inventory sorted, ofEntries_of_inventory exchanged]
    have dumps (metadata : ReleaseMetadata) :
        ((before ++ other :: after).filter (·.kind.isDump)).map
            (ofEntry container metadata options) =
          inventory.dumps.map (ofEntry container metadata options) := by
      rw [Inventory.dumps_of_ofEntries sorted, Inventory.dumps_around isDump,
        Inventory.dumps_around remains, List.map_append, List.map_append, List.map_cons,
        List.map_cons, keeps.ofEntry_eq otherKeeps named container metadata options]
    congr 1
    funext metadata
    simp only [ofInventory, dumps]

namespace Visit

variable {σ : Type} {handler : Handler σ}

/-- Of two containers that differ in no more than how a dump is kept, a visit comes to the same. The
dump, if it expands to the whole of its content, can be failed for its header or for a digest given
for it, but never for how it is kept. -/
theorem release_of_kept {file other bytes content : Bytes} {before after : List Zip.Entry}
    {stored deflated : Zip.Entry} {compression : Compression} {width : Option Nat}
    (listed : Zip.entries? file = some (before ++ stored :: after))
    (relisted : Zip.entries? other = some (before ++ deflated :: after))
    (named : deflated.name = stored.name) (kind : stored.kind = .dump compression width)
    (stores : stored.Stores bytes) (deflates : deflated.Deflates bytes)
    (expanded : compression.expand bytes = ⟨content, .complete⟩) (container : String)
    (options : WalkOptions) (state : σ) :
    release handler container options other state = release handler container options file state ∧
      ∀ metadata,
        entry handler container metadata options deflated state =
            entry handler container metadata options stored state ∧
          ∀ report, (entry handler container metadata options stored state).result = .ok report →
            ∃ ending, Zip.Entry.CameOut (options.given stored.name) bytes ending ∧
              report.bytes = ending.toOption.getD 0 ∧
              report.failure = MemberReport.failureOf ⟨container, stored.name⟩ ending := by
  have isDump : stored.kind.isDump = true := by
    rw [kind]
    rfl
  have remains : deflated.kind = .dump compression width := by
    rw [Zip.Entry.kind_of_name named, kind]
  have same := stores.keeps.dump_eq deflates.keeps named compression width options
  refine ⟨?_, fun metadata => ⟨?_, ?_⟩⟩
  · rw [release_eq_ofWalk, release_eq_ofWalk, Walk.ofZip_of_keeps listed relisted named isDump
      stores.keeps deflates.keeps]
  · simp only [entry_eq_ofEvents kind, entry_eq_ofEvents remains, same, named]
  · intro report reached
    have out := stores.keeps.cameOut expanded width options
    simp only [entry_eq_ofEvents kind, Handled.andThen] at reached
    split at reached
    · cases reached
    · cases reached
      exact ⟨_, out, rfl, rfl⟩

/-- The first dump of the small release, deflated. -/
def deflatedDump : Bytes := [
  147, 239, 230, 96, 0, 1, 22, 102, 70, 73, 134, 103, 255, 149, 195, 172, 20, 12, 185, 184, 18, 147,
  146, 107, 42, 184, 184, 242, 242, 147, 18, 139, 128, 156, 154, 74, 174, 139, 75, 20, 231, 75, 2,
  213, 1, 0]

/-- The small release, with its first dump deflated. -/
def deflatedRelease : Bytes :=
  ((smallRelease.take 134).set 104 8).set 114 46 ++ deflatedDump ++
    ((((smallRelease.drop 182).set 135 8).set 145 46).set 221 180).set 249 245

theorem entries_deflatedRelease : ∃ document stored deflated final,
    Zip.entries? smallRelease = some [document, stored, final] ∧
      Zip.entries? deflatedRelease = some [document, deflated, final] ∧
      deflated.name = stored.name ∧ stored.kind = .dump .gzip (some 3) ∧
      stored.Stores smallDump ∧ deflated.Deflates smallDump := by
  have evaluated : (Zip.entries? smallRelease).map (·.map fun entry =>
      decide (entry.kind = .dump .gzip (some 3) ∧ entry.stored = true ∧
        entry.crc32 = Digest.Crc32.checksum smallDump ∧ entry.raw = [.chunk smallDump])) =
      some [false, true, false] := by
    decide +kernel
  have relisted : Zip.entries? deflatedRelease = (Zip.entries? smallRelease).map
      (·.modify 1 fun entry => { entry with
        stored := false
        raw := [.chunk deflatedDump]
        content := some (Zip.inflated entry.crc32 deflatedDump) }) := by
    decide +kernel
  have inflates : Expand.run {} Compressed.Deflate.expand deflatedDump =
      ⟨smallDump, .complete⟩ := by
    decide +kernel
  obtain ⟨entries, listed, parts⟩ := Option.map_eq_some_iff.mp evaluated
  have three : entries.length = 3 := by simpa using congrArg List.length parts
  obtain ⟨document, stored, final, rfl⟩ := List.length_eq_three.mp three
  simp only [List.map_cons, List.map_nil, List.cons.injEq, decide_eq_true_eq] at parts
  obtain ⟨-, ⟨kind, asItIs, crc32, raw⟩, -⟩ := parts
  rw [listed] at relisted
  exact ⟨document, stored, _, final, listed, relisted, rfl, kind, ⟨asItIs, crc32, raw⟩,
    ⟨rfl, crc32, deflatedDump, rfl, inflates⟩⟩

/-- The first dump lacks a digest given for it, whether it is deflated or not. -/
theorem release_of_deflatedRelease :
    ∃ document stored deflated final,
      Zip.entries? smallRelease = some [document, stored, final] ∧
      Zip.entries? deflatedRelease = some [document, deflated, final] ∧
      stored.Stores smallDump ∧ deflated.Deflates smallDump ∧
      release counting "c" Handled.otherOptions deflatedRelease 0 =
        release counting "c" Handled.otherOptions smallRelease 0 ∧
      ∀ metadata report,
        (entry counting "c" metadata Handled.otherOptions stored 0).result = .ok report →
          ∃ ending, Zip.Entry.CameOut (Handled.otherOptions.given stored.name) smallDump ending ∧
            report.failure = MemberReport.failureOf ⟨"c", stored.name⟩ ending := by
  obtain ⟨document, stored, deflated, final, listed, relisted, named, kind, stores, deflates⟩ :=
    entries_deflatedRelease
  have around : Zip.entries? smallRelease = some ([document] ++ stored :: [final]) := listed
  have otherAround : Zip.entries? deflatedRelease = some ([document] ++ deflated :: [final]) :=
    relisted
  have expanded : Compression.expand .gzip smallDump = ⟨smallContent, .complete⟩ := by
    decide +kernel
  have kept : release counting "c" Handled.otherOptions deflatedRelease 0 =
      release counting "c" Handled.otherOptions smallRelease 0 ∧ _ :=
    release_of_kept around otherAround named kind stores deflates expanded "c"
      Handled.otherOptions 0
  obtain ⟨same, each⟩ := kept
  refine ⟨document, stored, deflated, final, listed, relisted, stores, deflates, same, ?_⟩
  intro metadata report reached
  obtain ⟨-, out⟩ := each metadata
  obtain ⟨ending, came, -, failure⟩ := out report reached
  exact ⟨ending, came, failure⟩

end Visit

end LinkArchive
