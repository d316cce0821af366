import LinkArchive.Proofs.Dump.Reading
import LinkArchive.Proofs.Dump.Step
import LinkArchive.Proofs.Validator.Verdict
import LinkArchive.Release.Dump

/-!
# Dumps in the bytes of a member

The bytes of a member go through a validator, an expansion and a dump reader. Whatever the reader
makes of them, no member is good whose bytes were not verified to their end: `verified_of_ending`.
Where nothing stops the validator or the expansion the reader sees just the expanded bytes:
`ofSource_of_verified`.
-/

namespace LinkArchive

/-! ### Failures on the way -/

theorem isInterrupted_mismatch (mismatch : Mismatch) :
    (VerifyError.mismatch mismatch).toReadError.isInterrupted = false := rfl

namespace Expansion

def stop (ending : Ending) (failure : Option ReadError) : Option ReadError :=
  match ending, failure with
  | .broken, _ => some fault
  | _, some error => some error
  | .starved, none => some fault
  | .complete, none => none

theorem readToEnd_last (ending : Ending) {failure : Option ReadError}
    (final : ∀ error ∈ failure, error.isInterrupted = false) :
    (last ending failure).readToEnd = ([], stop ending failure, []) := by
  cases failure with
  | none => cases ending <;> rfl
  | some error =>
    have met : Source.readToEnd [.failure error] = ([], some error, []) := by
      rw [Source.readToEnd, final error rfl, if_neg Bool.false_ne_true]
    cases ending with
    | broken => rfl
    | complete => exact met
    | starved => exact met

theorem readToEnd_source (expansion : Expansion) {failure : Option ReadError}
    (final : ∀ error ∈ failure, error.isInterrupted = false) :
    (expansion.source failure).readToEnd =
      (expansion.output, stop expansion.ending failure, []) := by
  rw [source, Source.readToEnd_putBack, readToEnd_last _ final, List.append_nil]

end Expansion

namespace DumpContent

open Dump

variable {source rest : Source} {bytes : Bytes} {bytesRead : Validator} {digests : DigestSet}

/-! ### What stops a reader -/

theorem failure?_failureItems (number : Nat) (error : ReadError) :
    (DumpReader.failureItems number (some error)).findSome? (·.failure?) = some error := rfl

theorem finish_of_ending {reader : DumpReader} {count : Nat}
    (good : (ofReader reader bytesRead).ending = .ok count) : bytesRead.finish = .ok count := by
  unfold ofReader at good
  split at good
  · rename_i flaw _ _
    cases flaw <;> cases good
  · unfold endingOf at good
    dsimp only at good
    split at good
    · cases good
    · cases finished : bytesRead.finish with
      | error error =>
        rw [finished] at good
        cases good
      | ok total =>
        rw [finished] at good
        cases good
        rfl

/-! ### What a reader gives -/

theorem recordOf_ne_io (grammar : Grammar) (options : ReaderOptions) (number : Nat) (line : Bytes)
    (error : ReadError) : (recordOf grammar options number line).1 ≠ .error (.io error) := by
  intro failed
  cases bodyError_recordOf failed

theorem failure?_itemOf (grammar : Grammar) (options : ReaderOptions) (line : Bytes × Nat) :
    (DumpReader.itemOf grammar options line).failure? = none := by
  unfold DumpReader.Item.failure?
  split
  · rename_i error met
    exact absurd met (recordOf_ne_io grammar options line.2 line.1 error)
  · rfl

theorem failure?_of_mem_itemsOf {grammar : Grammar} {options : ReaderOptions}
    {body : List (Bytes × Nat)} {item : DumpReader.Item}
    (member : item ∈ DumpReader.itemsOf grammar options body) : item.failure? = none := by
  obtain ⟨line, -, rfl⟩ := List.mem_map.mp member
  exact failure?_itemOf grammar options line

theorem findSome?_itemsOf (grammar : Grammar) (options : ReaderOptions)
    (body : List (Bytes × Nat)) :
    (DumpReader.itemsOf grammar options body).findSome? (·.failure?) = none :=
  List.findSome?_eq_none_iff.mpr fun _ member => failure?_of_mem_itemsOf member

theorem filter_itemsOf (grammar : Grammar) (options : ReaderOptions) (body : List (Bytes × Nat)) :
    (DumpReader.itemsOf grammar options body).filter (·.failure?.isNone) =
      DumpReader.itemsOf grammar options body := by
  apply List.filter_eq_self.mpr
  intro item member
  rw [failure?_of_mem_itemsOf member]
  rfl

theorem ofReader_of_reading {content : Bytes} {fields : List MetaField} {count : Nat}
    {grammar : Grammar} {options : ReaderOptions} (data : source.readToEnd = (content, none, []))
    (formed : (Reading.ofBytes grammar options content).header = .ok fields)
    (finished : bytesRead.finish = .ok count) :
    ofReader (DumpReader.ofSource source grammar options) bytesRead =
      { header := fields
        items := (Reading.ofBytes grammar options content).items
        ending := .ok count } := by
  have reading := DumpReader.reading_of_readToEnd data grammar options
  have header := congrArg Reading.header reading
  have items := congrArg Reading.items reading
  unfold DumpReader.reading at header items
  rcases found : (DumpReader.ofSource source grammar options).header with ⟨result, after⟩
  rw [found] at header items
  obtain rfl : result = .ok fields := header.trans formed
  have items : after.readAll.1 = (Reading.ofBytes grammar options content).items := items
  rw [ofReader, found]
  simp only [items, Reading.ofBytes, filter_itemsOf, endingOf, findSome?_itemsOf, finished]
  rfl

/-! ### Members -/

variable (compression : Compression) (width : Option Nat) (requireSeparator : Bool)

/-- A dump is known from its bytes and the first digest that they lack. -/
theorem ofSource_eq_ofReader (data : source.readToEnd = (bytes, none, rest)) :
    ofSource source digests compression width requireSeparator =
      ofReader (DumpReader.ofSource ((compression.expand bytes).source
        ((digests.mismatch? bytes).map fun mismatch => (VerifyError.mismatch mismatch).toReadError))
        (.fixed width) { requireSeparator }) (Validator.ofSource source digests) := by
  rw [ofSource, Validator.readToEnd_ofSource digests data]

/-- The bytes that pass are expanded and read with nothing behind them. -/
theorem ofSource_of_verified (data : source.readToEnd = (bytes, none, rest))
    (passes : digests.mismatch? bytes = none) :
    ofSource source digests compression width requireSeparator =
      ofReader (DumpReader.ofSource ((compression.expand bytes).source none) (.fixed width)
        { requireSeparator }) (Validator.ofSource source digests) := by
  rw [ofSource_eq_ofReader compression width requireSeparator data, passes]
  rfl

/-- A member is good only if all of its bytes were read and have the digests expected of them,
whatever reader its records come from and wherever in the member that stops. -/
theorem verified_of_ending {reader : DumpReader} {count : Nat} (rooms : List Nat)
    (spacious : 0 ∉ rooms)
    (unfailed : ∀ error, .error error ∈ ((Validator.ofSource source digests).reads rooms).1 →
      error.isInterrupted = true)
    (good : (ofReader reader ((Validator.ofSource source digests).reads rooms).2).ending =
      .ok count) :
    ∃ bytes rest, source.readToEnd = (bytes, none, rest) ∧ digests.mismatch? bytes = none ∧
      count = bytes.length := by
  have finished := finish_of_ending good
  rw [Validator.finish_reads _ spacious unfailed] at finished
  exact Validator.verified_of_finish finished

theorem verified_of_ending_ofSource {count : Nat}
    (good : (ofSource source digests compression width requireSeparator).ending = .ok count) :
    ∃ bytes rest, source.readToEnd = (bytes, none, rest) ∧ digests.mismatch? bytes = none ∧
      count = bytes.length :=
  verified_of_ending [] (by simp) (by simp [Validator.reads]) good

end DumpContent

/-! ### Entries -/

/-- All that reading an entry gives: the bytes in the file if it is stored, and what the container's
own reader makes of them otherwise. -/
def Zip.Entry.Holds (entry : Zip.Entry) (bytes : Bytes) : Prop :=
  ∃ source rest, (if entry.stored then some entry.raw else entry.content) = some source ∧
    source.readToEnd = (bytes, none, rest)

namespace Zip.Entry

theorem dumpBytes_eq (entry : Zip.Entry) :
    entry.dumpBytes = (if entry.stored then some entry.raw else entry.content,
      if entry.stored then some entry.crc32 else none) := by
  unfold dumpBytes
  split <;> rfl

theorem dump_of_opened {entry : Zip.Entry} {source : Source}
    (opened : (if entry.stored then some entry.raw else entry.content) = some source)
    (compression : Compression) (width : Option Nat) (options : WalkOptions) :
    entry.dump compression width options =
      DumpContent.ofSource source (options.digestsFor entry.name entry.dumpBytes.2) compression
        width options.requireSeparator := by
  have bytes : entry.dumpBytes = (some source, entry.dumpBytes.2) :=
    Prod.ext ((congrArg Prod.fst entry.dumpBytes_eq).trans opened) rfl
  rw [dump, bytes]

end Zip.Entry

end LinkArchive
