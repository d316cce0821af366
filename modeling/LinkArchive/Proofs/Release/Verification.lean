import LinkArchive.Proofs.Release.Dump
import LinkArchive.Proofs.Release.Walk
import Mathlib.Data.List.Forall2

/-!
# No member is good unverified

Where the report of a dump has no failure, all bytes of the member were read, and they have every
digest that the options or the container state for them: `members_verified`.
-/

namespace LinkArchive

/-! ### Expected digests -/

theorem Algorithm.checksumBytes_inj {first second : UInt32}
    (same : checksumBytes first = checksumBytes second) : first = second := by
  unfold checksumBytes Bytes.ofNatBigEndian at same
  have bound₁ := first.toNat_lt
  have bound₂ := second.toNat_lt
  have octets : ∀ place < 4,
      first.toNat / 256 ^ place % 256 = second.toNat / 256 ^ place % 256 := by
    intro place inside
    have octet := List.map_inj_left.mp same place (by simpa using inside)
    simpa using congrArg UInt8.toNat octet
  have octet₀ := octets 0 (by decide)
  have octet₁ := octets 1 (by decide)
  have octet₂ := octets 2 (by decide)
  have octet₃ := octets 3 (by decide)
  apply UInt32.toNat_inj.mp
  omega

namespace WalkOptions

variable {options : WalkOptions} {name : String} {given : DigestSet} {algorithm : Algorithm}

theorem get?_digestsFor_of_given {digest : Bytes} (crc32 : Option UInt32)
    (found : options.memberDigests.lookup name = some given)
    (known : given.get? algorithm = some digest) :
    (options.digestsFor name crc32).get? algorithm = some digest := by
  unfold DigestSet.get? at known ⊢
  cases slot : given.slot algorithm with
  | none =>
    rw [slot] at known
    cases known
  | some value =>
    rw [slot] at known
    rw [digestsFor, found, DigestSet.slot_merge, slot, Option.some_or]
    exact known

theorem get?_digestsFor_of_own (checksum : UInt32) (verify : options.verifyCrc32 = true)
    (free : (options.memberDigests.lookup name).bind (·.crc32) = none) :
    (options.digestsFor name (some checksum)).get? .crc32 =
      some (Algorithm.checksumBytes checksum) := by
  have own : (options.ownDigests (some checksum)).slot .crc32 =
      (DigestSet.empty.withCrc32 checksum).slot .crc32 := by
    rw [ownDigests, if_pos verify]
  unfold DigestSet.get? digestsFor
  cases found : options.memberDigests.lookup name with
  | none =>
    dsimp only
    rw [own]
    rfl
  | some given =>
    rw [found] at free
    have none : given.slot .crc32 = none := free
    dsimp only
    rw [DigestSet.slot_merge, none, Option.none_or, own]
    rfl

end WalkOptions

/-! ### Members -/

/-- The digests that are stated for an entry are those of `bytes`. -/
structure Zip.Entry.Verified (entry : Zip.Entry) (options : WalkOptions) (bytes : Bytes) :
    Prop where
  given : ∀ set, options.memberDigests.lookup entry.name = some set →
    ∀ algorithm digest, set.get? algorithm = some digest → algorithm.digest bytes = digest
  own : entry.stored = true → options.verifyCrc32 = true →
    (options.memberDigests.lookup entry.name).bind (·.crc32) = none →
    Digest.Crc32.checksum bytes = entry.crc32

/-- The report of an entry that is good only with all bytes verified. -/
def MemberReport.Sound (options : WalkOptions) (entry : Zip.Entry) (report : MemberReport) : Prop :=
  report.name = entry.name ∧
    (report.failure = none → ∃ bytes, entry.Holds bytes ∧ report.bytes = bytes.length ∧
      entry.Verified options bytes)

namespace Zip.Entry

variable {entry : Zip.Entry} {options : WalkOptions} {compression : Compression}
variable {width : Option Nat} {count : Nat}

theorem verified_of_dump (good : (entry.dump compression width options).ending = .ok count) :
    ∃ bytes, entry.Holds bytes ∧ count = bytes.length ∧ entry.Verified options bytes := by
  unfold dump at good
  split at good
  · cases good
  · rename_i source crc32 opened
    rw [dumpBytes_eq] at opened
    obtain ⟨source_eq, crc32_eq⟩ := Prod.mk.inj opened
    obtain ⟨bytes, rest, data, passes, length⟩ := DumpContent.verified_of_ending_ofSource _ _ _ good
    have equal := DigestSet.mismatch?_eq_none.mp passes
    refine ⟨bytes, ⟨source, rest, source_eq, data⟩, length, ?_, ?_⟩
    · intro set found algorithm digest known
      exact equal algorithm digest (WalkOptions.get?_digestsFor_of_given crc32 found known)
    · intro stored verify free
      rw [stored, if_pos rfl] at crc32_eq
      rw [← crc32_eq] at equal
      have own := WalkOptions.get?_digestsFor_of_own entry.crc32 verify free
      exact Algorithm.checksumBytes_inj (equal .crc32 _ own)

theorem sound_ofEntry (isDump : entry.kind.isDump = true) (container : String)
    (metadata : ReleaseMetadata) :
    MemberReport.Sound options entry (Walk.ofEntry container metadata options entry).1 := by
  obtain ⟨compression, width, kind⟩ := kind_of_isDump isDump
  rw [Walk.ofEntry_of_dump kind, Walk.ofDump]
  refine ⟨rfl, ?_⟩
  intro unfailed
  cases ending : (entry.dump compression width options).ending with
  | error fault => simp [MemberReport.ofContent, MemberReport.failureOf, ending] at unfailed
  | ok count =>
    obtain ⟨bytes, holds, length, verified⟩ := verified_of_dump ending
    refine ⟨bytes, holds, ?_, verified⟩
    rw [← length]
    simp [MemberReport.ofContent, ending, Except.toOption]

end Zip.Entry

namespace Handled

/-- No walk reports a member as good whose bytes are not those that were to be read, or lack a
digest stated for them. -/
theorem members_verified {σ : Type} {handler : Handler σ} {container : String}
    {options : WalkOptions} {file : Bytes} {state : σ} {report : ReleaseReport}
    (walked : (ofWalk handler (Walk.ofZip container options file) state).result = .ok report) :
    ∃ entries, Zip.entries? file = some entries ∧
      List.Forall₂ (MemberReport.Sound options) (entries.filter (·.kind.isDump))
        report.members := by
  obtain ⟨walk, found, rfl⟩ := report_of_result walked
  obtain ⟨entries, inventory, metadata, listed, sorted, -, rfl⟩ := Walk.ofZip_eq_ok.mp found
  refine ⟨entries, listed, ?_⟩
  rw [← Inventory.dumps_of_ofEntries sorted]
  have dumps : ∀ entry ∈ inventory.dumps, entry.kind.isDump = true := by
    intro entry member
    rw [Inventory.dumps_of_ofEntries sorted] at member
    exact (List.mem_filter.mp member).2
  simp only [Walk.ofInventory, List.map_map]
  generalize inventory.dumps = entries at dumps
  induction entries with
  | nil => exact .nil
  | cons entry others ih =>
    obtain ⟨isDump, rest⟩ := List.forall_mem_cons.mp dumps
    exact .cons (Zip.Entry.sound_ofEntry isDump container metadata) (ih rest)

theorem members_verified_of_smallRelease :
    ∃ report, (ofWalk counting (Walk.ofZip "c" smallOptions smallRelease) 0).result = .ok report ∧
      report.members.map (·.failure.isNone) = [true, false] ∧
      ∃ entries, Zip.entries? smallRelease = some entries ∧
        List.Forall₂ (MemberReport.Sound smallOptions) (entries.filter (·.kind.isDump))
          report.members := by
  have evaluated :
      (ofWalk counting (Walk.ofZip "c" smallOptions smallRelease) 0).result.toOption.map
        (fun report => report.members.map (·.failure.isNone)) = some [true, false] := by
    decide +kernel
  cases walked : (ofWalk counting (Walk.ofZip "c" smallOptions smallRelease) 0).result with
  | error error =>
    rw [walked] at evaluated
    cases evaluated
  | ok report =>
    rw [walked] at evaluated
    exact ⟨report, rfl, Option.some.inj evaluated, members_verified walked⟩

end Handled

end LinkArchive
