import LinkArchive.Proofs.Digest.Incremental
import LinkArchive.Proofs.Source.Delivery
import LinkArchive.Validator

/-!
# The verdict of a validator

A validator gives what its source gives until a read with room meets the end. There it compares the
digests of all bytes passed on, and from then on it repeats the verdict: `reads_ofSource` says so
for every sequence of reads. `Validator.Passing` is what such a sequence preserves before the end.
-/

namespace LinkArchive

/-! ### Digests with the data in hand -/

/-- The first digest, in checking order, that some data does not have. -/
def DigestSet.mismatch? (expected : DigestSet) (data : Bytes) : Option Mismatch :=
  expected.toList.findSome? fun (algorithm, digest) =>
    if algorithm.digest data = digest then none
    else some ⟨algorithm, algorithm.digest data, digest⟩

theorem DigestSet.mem_toList {expected : DigestSet} {algorithm : Algorithm} {digest : Bytes} :
    (algorithm, digest) ∈ expected.toList ↔ expected.get? algorithm = some digest := by
  have listed : algorithm ∈ Algorithm.all := by cases algorithm <;> decide
  simp [toList, listed]

theorem DigestSet.mismatch?_eq_none {expected : DigestSet} {data : Bytes} :
    expected.mismatch? data = none ↔
      ∀ algorithm digest, expected.get? algorithm = some digest →
        algorithm.digest data = digest := by
  rw [mismatch?, List.findSome?_eq_none_iff]
  constructor
  · intro passes algorithm digest known
    simpa using passes (algorithm, digest) (mem_toList.mpr known)
  · intro equal entry member
    simpa using equal entry.1 entry.2 (mem_toList.mp member)

/-- The place of an algorithm in the checking order. -/
def Algorithm.rank : Algorithm → Nat
  | md5 => 0
  | sha1 => 1
  | crc32 => 2

/-- A digest that some data does not have, while it has all that are checked before. -/
structure DigestSet.FirstMismatch (expected : DigestSet) (data : Bytes) (m : Mismatch) : Prop where
  expected_eq : expected.get? m.algorithm = some m.expected
  actual_eq : m.actual = m.algorithm.digest data
  differs : m.actual ≠ m.expected
  earlier : ∀ algorithm digest, algorithm.rank < m.algorithm.rank →
    expected.get? algorithm = some digest → algorithm.digest data = digest

theorem DigestSet.toList_ordered (expected : DigestSet) :
    expected.toList.Pairwise (·.1.rank < ·.1.rank) := by
  have ordered : Algorithm.all.Pairwise (·.rank < ·.rank) := by decide
  refine List.Pairwise.filterMap _ ?_ ordered
  intro first second before one isFirst other isSecond
  obtain ⟨_, -, rfl⟩ := Option.map_eq_some_iff.mp isFirst
  obtain ⟨_, -, rfl⟩ := Option.map_eq_some_iff.mp isSecond
  exact before

theorem DigestSet.firstMismatch_of_mismatch? {expected : DigestSet} {data : Bytes} {m : Mismatch}
    (found : expected.mismatch? data = some m) : expected.FirstMismatch data m := by
  obtain ⟨before, ⟨algorithm, digest⟩, after, split, met, passed⟩ :=
    List.findSome?_eq_some_iff.mp found
  dsimp only at met
  have differs : algorithm.digest data ≠ digest := by
    intro same
    rw [if_pos same] at met
    cases met
  rw [if_neg differs] at met
  obtain rfl := Option.some.inj met
  have ordered := expected.toList_ordered
  rw [split, List.pairwise_append] at ordered
  obtain ⟨-, later, -⟩ := ordered
  refine ⟨?_, rfl, differs, ?_⟩
  · apply mem_toList.mp
    rw [split]
    exact List.mem_append_right _ List.mem_cons_self
  · intro other expectedOther earlier known
    have member := mem_toList.mpr known
    rw [split] at member
    rcases List.mem_append.mp member with inside | behind
    · simpa using passed _ inside
    · -- what is not checked before has no lower rank
      rcases List.mem_cons.mp behind with same | behind
      · obtain ⟨rfl, -⟩ := Prod.mk.inj same
        exact absurd earlier (Nat.lt_irrefl _)
      · have above := List.rel_of_pairwise_cons later behind
        exact absurd above (Nat.lt_asymm earlier)

/-- What is said in the end of data that was passed on. -/
def DigestSet.judge (expected : DigestSet) (data : Bytes) : Except VerifyError Nat :=
  match expected.mismatch? data with
  | none => .ok data.length
  | some mismatch => .error (.mismatch mismatch)

/-! ### Sequences of reads -/

namespace Source

/-- Reads into buffers of these sizes, one after the other. -/
def reads : Source → List Nat → List ReadResult × Source
  | source, [] => ([], source)
  | source, room :: rooms =>
    let (result, after) := source.read room
    let (results, last) := reads after rooms
    (result :: results, last)

/-- No read with room meets the end. -/
def Unended (source : Source) (rooms : List Nat) : Prop :=
  ∀ read ∈ rooms.zip (source.reads rooms).1, read.2 = .ok [] → read.1 = 0

end Source

def delivered (results : List ReadResult) : Bytes :=
  results.flatMap fun
    | .ok bytes => bytes
    | .error _ => []

namespace Validator

/-- Reads into buffers of these sizes, one after the other. -/
def reads : Validator → List Nat → List ReadResult × Validator
  | v, [] => ([], v)
  | v, room :: rooms =>
    let (result, after) := v.read room
    let (results, last) := reads after rooms
    (result :: results, last)

/-- A validator that has passed on `data` and has `source` still to read. -/
structure Passing (v : Validator) (expected : DigestSet) (data : Bytes) (source : Source) :
    Prop where
  source_eq : v.source = source
  hashers_eq : v.hashers = expected.toList.map fun (algorithm, digest) =>
    (algorithm, (Hasher.ofAlgorithm algorithm).update data, digest)
  bytes_eq : v.bytes = data.length
  open_ : v.verdict = none

variable {v : Validator} {expected : DigestSet} {data : Bytes} {source : Source}

theorem passing_ofSource (source : Source) (expected : DigestSet) :
    (ofSource source expected).Passing expected [] source where
  source_eq := rfl
  hashers_eq := by simp [ofSource]
  bytes_eq := rfl
  open_ := rfl

theorem Passing.pass (h : v.Passing expected data source) (bytes : Bytes) (after : Source) :
    (v.pass bytes after).Passing expected (data ++ bytes) after where
  source_eq := rfl
  hashers_eq := by
    simp only [Validator.pass, h.hashers_eq, List.map_map, Function.comp_def, Hasher.update_append]
  bytes_eq := by simp [Validator.pass, h.bytes_eq]
  open_ := h.open_

theorem Passing.compare_eq (h : v.Passing expected data source) :
    compare v.hashers = expected.mismatch? data := by
  rw [compare, h.hashers_eq, DigestSet.mismatch?, List.findSome?_map]
  simp only [Function.comp_def, Hasher.finish_update]

/-! ### One read -/

theorem Passing.with_source (h : v.Passing expected data source) (after : Source) :
    Passing { v with source := after, verdict := none } expected data after where
  source_eq := rfl
  hashers_eq := h.hashers_eq
  bytes_eq := h.bytes_eq
  open_ := rfl

/-- Away from the end a read gives what the source gives. -/
theorem Passing.read_on (h : v.Passing expected data source) {room : Nat}
    (inside : (source.read room).1 = .ok [] → room = 0) :
    ∃ after, v.read room = ((source.read room).1, after) ∧
      after.Passing expected (data ++ delivered [(source.read room).1]) (source.read room).2 := by
  unfold read
  rw [h.open_, h.source_eq]
  rcases met : source.read room with ⟨error | bytes, after⟩
  · refine ⟨_, rfl, ?_⟩
    simpa [delivered] using h.with_source after
  · rw [met] at inside
    cases bytes with
    | nil =>
      dsimp only
      rw [if_pos (inside rfl)]
      refine ⟨_, rfl, ?_⟩
      simpa [delivered] using h.with_source after
    | cons byte bytes =>
      refine ⟨_, rfl, ?_⟩
      simpa [delivered] using h.pass (byte :: bytes) after

theorem Passing.read_end (h : v.Passing expected data source) {room : Nat}
    (met : (source.read room).1 = .ok []) (spacious : room ≠ 0) :
    v.read room = (conclude (expected.mismatch? data),
      { v with source := (source.read room).2, verdict := some (expected.mismatch? data) }) := by
  unfold read
  rw [h.open_, h.source_eq, h.compare_eq]
  rcases found : source.read room with ⟨result, after⟩
  rw [found] at met
  obtain rfl : result = .ok [] := met
  dsimp only
  rw [if_neg spacious]

theorem reads_of_verdict {verdict : Option Mismatch} (judged : v.verdict = some verdict)
    (rooms : List Nat) : v.reads rooms = (List.replicate rooms.length (conclude verdict), v) := by
  induction rooms with
  | nil => rfl
  | cons room rooms ih =>
    have again : v.read room = (conclude verdict, v) := by rw [read, judged]
    rw [reads, again]
    dsimp only
    rw [ih]
    rfl

/-! ### Reading to the end -/

theorem pass_nil (v : Validator) (after : Source) :
    v.pass [] after = { v with source := after } := by
  simp [pass]

theorem pass_pass (v : Validator) (first second : Bytes) (between after : Source) :
    (v.pass first between).pass second after = v.pass (first ++ second) after := by
  simp [pass, Hasher.update_append, Nat.add_assoc]

theorem readToEnd_of_verdict {verdict : Option Mismatch} (judged : v.verdict = some verdict) :
    v.readToEnd =
      ([], verdict.map fun mismatch => (VerifyError.mismatch mismatch).toReadError, v) := by
  rw [readToEnd, judged]
  cases verdict <;> rfl

theorem readToEnd_of_failure (fresh : v.verdict = none) {bytes : Bytes} {error : ReadError}
    {after : Source} (data : v.source.readToEnd = (bytes, some error, after)) :
    v.readToEnd = (bytes, some error, v.pass bytes after) := by
  rw [readToEnd, fresh]
  simp only [data]

theorem readToEnd_of_end (fresh : v.verdict = none) {bytes : Bytes} {after : Source}
    (data : v.source.readToEnd = (bytes, none, after)) :
    v.readToEnd = (bytes,
      (compare (v.pass bytes after).hashers).map fun mismatch =>
        (VerifyError.mismatch mismatch).toReadError,
      { v.pass bytes after with verdict := some (compare (v.pass bytes after).hashers) }) := by
  rw [readToEnd, fresh]
  simp only [data]
  cases compare (v.pass bytes after).hashers <;> rfl

theorem readToEnd_ofSource {bytes : Bytes} {rest : Source} (expected : DigestSet)
    (data : source.readToEnd = (bytes, none, rest)) :
    (ofSource source expected).readToEnd = (bytes,
      (expected.mismatch? bytes).map fun mismatch => (VerifyError.mismatch mismatch).toReadError,
      { (ofSource source expected).pass bytes rest with
        verdict := some (expected.mismatch? bytes) }) := by
  have passed := (passing_ofSource source expected).pass bytes rest
  have read := readToEnd_of_end (v := ofSource source expected) rfl data
  rw [passed.compare_eq, List.nil_append] at read
  exact read

theorem readToEnd_of_data (fresh : v.verdict = none) {first : Bytes} {after : Source}
    (data : v.source.readToEnd = (first ++ after.readToEnd.1, after.readToEnd.2)) :
    v.readToEnd =
      (first ++ (v.pass first after).readToEnd.1, (v.pass first after).readToEnd.2) := by
  have later : (v.pass first after).verdict = none := fresh
  rcases rest : after.readToEnd with ⟨more, failure, left⟩
  rw [rest] at data
  cases failure with
  | some error =>
    rw [readToEnd_of_failure fresh data, readToEnd_of_failure later rest, pass_pass]
  | none =>
    rw [readToEnd_of_end fresh data, readToEnd_of_end later rest, pass_pass]

/-- Reading to the end is reading again and again, into buffers of any size. -/
theorem readToEnd_of_read (v : Validator) {room : Nat} (spacious : room ≠ 0) :
    v.readToEnd = match v.read room with
      | (.error error, after) =>
        if error.isInterrupted then after.readToEnd else ([], some error, after)
      | (.ok bytes, after) =>
        if bytes.isEmpty then ([], none, after)
        else (bytes ++ after.readToEnd.1, after.readToEnd.2) := by
  cases fresh : v.verdict with
  | some verdict =>
    rw [readToEnd_of_verdict fresh, read, fresh]
    cases verdict <;> rfl
  | none =>
    have step := v.source.readToEnd_of_read spacious
    rcases met : v.source.read room with ⟨error | bytes, after⟩
    · rw [read, fresh, met]
      rw [met] at step
      dsimp only at step ⊢
      split at step
      · rename_i interrupted
        rw [if_pos interrupted]
        have data : v.source.readToEnd = ([] ++ after.readToEnd.1, after.readToEnd.2) := step
        rw [readToEnd_of_data fresh data, pass_nil, fresh]
        rfl
      · rename_i final
        rw [if_neg final, readToEnd_of_failure fresh step, pass_nil, fresh]
    · rw [met] at step
      cases bytes with
      | nil =>
        rw [read, fresh, met]
        dsimp only at step ⊢
        rw [if_neg spacious, readToEnd_of_end fresh step, pass_nil]
        cases compare v.hashers <;> rfl
      | cons byte bytes =>
        have data : v.source.readToEnd =
            (byte :: bytes ++ after.readToEnd.1, after.readToEnd.2) := step
        rw [read, fresh, met, readToEnd_of_data fresh data]
        rfl

/-- What finishing gives when `source` is still to be read after `data`. -/
def finishing (expected : DigestSet) (data : Bytes) (source : Source) : Except VerifyError Nat :=
  match source.readToEnd with
  | (_, some error, _) => .error (.ofReadError error)
  | (more, none, _) => expected.judge (data ++ more)

theorem finish_of_verdict (judged : v.verdict = some (expected.mismatch? data))
    (bytes_eq : v.bytes = data.length) : v.finish = expected.judge data := by
  rw [finish, readToEnd_of_verdict judged, DigestSet.judge]
  cases expected.mismatch? data with
  | none => exact congrArg Except.ok bytes_eq
  | some mismatch => rfl

theorem Passing.finish_eq (h : v.Passing expected data source) :
    v.finish = finishing expected data source := by
  unfold finishing
  rcases rest : source.readToEnd with ⟨more, failure, left⟩
  have found := rest
  rw [← h.source_eq] at found
  have passed := h.pass more left
  cases failure with
  | some error => rw [finish, readToEnd_of_failure h.open_ found]
  | none =>
    dsimp only
    rw [finish, readToEnd_of_end h.open_ found, passed.compare_eq, DigestSet.judge]
    cases expected.mismatch? (data ++ more) with
    | none => exact congrArg Except.ok passed.bytes_eq
    | some mismatch => rfl

theorem finish_ofSource (expected : DigestSet) {bytes : Bytes} {rest : Source}
    (data : source.readToEnd = (bytes, none, rest)) :
    (ofSource source expected).finish = expected.judge bytes := by
  rw [(passing_ofSource source expected).finish_eq, finishing, data]
  rfl

/-- Data is good only if all of it was read and has the digests expected of it. -/
theorem verified_of_finish {count : Nat} (good : (ofSource source expected).finish = .ok count) :
    ∃ bytes rest, source.readToEnd = (bytes, none, rest) ∧ expected.mismatch? bytes = none ∧
      count = bytes.length := by
  rcases data : source.readToEnd with ⟨bytes, failure, rest⟩
  cases failure with
  | some error =>
    rw [(passing_ofSource source expected).finish_eq, finishing, data] at good
    cases good
  | none =>
    rw [finish_ofSource expected data, DigestSet.judge] at good
    cases passes : expected.mismatch? bytes with
    | none =>
      rw [passes] at good
      exact ⟨bytes, rest, rfl, passes, (Except.ok.inj good).symm⟩
    | some mismatch =>
      rw [passes] at good
      cases good

/-! ### Finishing where reads stop -/

theorem finish_congr {first second : Validator}
    (same : first.readToEnd.2 = second.readToEnd.2) : first.finish = second.finish := by
  unfold finish
  rcases one : first.readToEnd with ⟨bytes, failure, after⟩
  rcases other : second.readToEnd with ⟨others, failing, last⟩
  rw [one, other] at same
  cases same
  cases failure <;> rfl

theorem conclude_eq_ok {verdict : Option Mismatch} {bytes : Bytes} :
    conclude verdict = .ok bytes ↔ verdict = none ∧ bytes = [] := by
  cases verdict <;> simp [conclude, eq_comm]

theorem verdict_of_read_end {room : Nat} (spacious : room ≠ 0) {after : Validator}
    (ended : v.read room = (.ok [], after)) : after.verdict = some none := by
  unfold read at ended
  split at ended
  · rename_i verdict judged
    obtain ⟨passed, rfl⟩ := Prod.mk.inj ended
    rw [judged, (conclude_eq_ok.mp passed).1]
  · split at ended
    · cases ended
    · rw [if_neg spacious] at ended
      obtain ⟨passed, rfl⟩ := Prod.mk.inj ended
      exact congrArg some (conclude_eq_ok.mp passed).1
    · rename_i nonempty _
      obtain ⟨none, -⟩ := Prod.mk.inj ended
      exact absurd (Except.ok.inj none) nonempty

theorem finish_read (v : Validator) {room : Nat} (spacious : room ≠ 0)
    (unfailed : ∀ error, (v.read room).1 = .error error → error.isInterrupted = true) :
    (v.read room).2.finish = v.finish := by
  have step := v.readToEnd_of_read spacious
  rcases met : v.read room with ⟨error | bytes, after⟩
  · rw [met] at step unfailed
    dsimp only at step
    rw [if_pos (unfailed error rfl)] at step
    exact finish_congr (congrArg Prod.snd step.symm)
  · rw [met] at step
    dsimp only at step ⊢
    split at step
    · rename_i ended
      obtain rfl : bytes = [] := by simpa using ended
      have again := readToEnd_of_verdict (verdict_of_read_end spacious met)
      exact finish_congr (by rw [again, step]; rfl)
    · exact finish_congr (by rw [step])

/-- Wherever reads stop, what they leave is verified together with what they took. -/
theorem finish_reads (v : Validator) {rooms : List Nat} (spacious : 0 ∉ rooms)
    (unfailed : ∀ error, .error error ∈ (v.reads rooms).1 → error.isInterrupted = true) :
    (v.reads rooms).2.finish = v.finish := by
  induction rooms generalizing v with
  | nil => rfl
  | cons room rooms ih =>
    simp only [List.mem_cons, not_or] at spacious
    obtain ⟨first, others⟩ := spacious
    have here : (v.read room).2.finish = v.finish :=
      v.finish_read (Ne.symm first) fun error failed =>
        unfailed error (failed ▸ List.mem_cons_self)
    rw [← here]
    exact ih (v.read room).2 others fun error failed =>
      unfailed error (List.mem_cons_of_mem _ failed)

/-! ### Sequences of reads from the start -/

/-- The reads met no end: they gave what the source gives, and nothing was judged. -/
structure Streamed (source : Source) (expected : DigestSet) (rooms : List Nat)
    (results : List ReadResult) (v : Validator) : Prop where
  unended : source.Unended rooms
  results_eq : results = (source.reads rooms).1
  source_eq : v.source = (source.reads rooms).2
  bytes_eq : v.bytes = (delivered results).length
  unchecked : v.isChecked = false
  finish_eq : v.finish = finishing expected (delivered results) (source.reads rooms).2

/-- The reads met their first end with the one into `room` bytes, after those into `before` and with
`later` more to come: this one and all later ones gave the verdict, without another look at the
source. -/
structure Judged (source : Source) (expected : DigestSet) (before : List Nat) (room later : Nat)
    (results : List ReadResult) (v : Validator) : Prop where
  unended : source.Unended before
  spacious : room ≠ 0
  met : ((source.reads before).2.read room).1 = .ok []
  results_eq : results = (source.reads before).1 ++
    List.replicate (later + 1) (conclude (expected.mismatch? (delivered (source.reads before).1)))
  source_eq : v.source = ((source.reads before).2.read room).2
  bytes_eq : v.bytes = (delivered (source.reads before).1).length
  checked : v.isChecked = true
  finish_eq : v.finish = expected.judge (delivered (source.reads before).1)

theorem unended_cons {room : Nat} {rooms : List Nat} :
    source.Unended (room :: rooms) ↔
      ((source.read room).1 = .ok [] → room = 0) ∧ (source.read room).2.Unended rooms := by
  simp [Source.Unended, Source.reads]

theorem delivered_cons (result : ReadResult) (results : List ReadResult) :
    delivered (result :: results) = delivered [result] ++ delivered results := by
  simp [delivered]

theorem unended_or_met (source : Source) (rooms : List Nat) :
    source.Unended rooms ∨ ∃ before room after, rooms = before ++ room :: after ∧
      source.Unended before ∧ room ≠ 0 ∧ ((source.reads before).2.read room).1 = .ok [] := by
  induction rooms generalizing source with
  | nil =>
    left
    intro read member
    cases member
  | cons room rooms ih =>
    by_cases inside : (source.read room).1 = .ok [] → room = 0
    · rcases ih (source.read room).2 with unended | ⟨before, last, after, rfl, unended, found⟩
      · exact Or.inl (unended_cons.mpr ⟨inside, unended⟩)
      · exact Or.inr ⟨room :: before, last, after, rfl, unended_cons.mpr ⟨inside, unended⟩, found⟩
    · obtain ⟨met, spacious⟩ := Classical.not_imp.mp inside
      right
      refine ⟨[], room, rooms, rfl, ?_, spacious, met⟩
      intro read member
      cases member

theorem reads_append (v : Validator) (first second : List Nat) :
    v.reads (first ++ second) = ((v.reads first).1 ++ ((v.reads first).2.reads second).1,
      ((v.reads first).2.reads second).2) := by
  induction first generalizing v with
  | nil => rfl
  | cons room first ih =>
    simp only [List.cons_append, reads, ih]

theorem Passing.reads_of_unended (h : v.Passing expected data source) {rooms : List Nat}
    (unended : source.Unended rooms) :
    ∃ after, v.reads rooms = ((source.reads rooms).1, after) ∧
      after.Passing expected (data ++ delivered (source.reads rooms).1) (source.reads rooms).2 := by
  induction rooms generalizing v data source with
  | nil => exact ⟨v, rfl, by simpa [Source.reads, delivered] using h⟩
  | cons room rooms ih =>
    obtain ⟨inside, others⟩ := unended_cons.mp unended
    obtain ⟨next, read, passing⟩ := h.read_on inside
    obtain ⟨after, reads_eq, last⟩ := ih passing others
    refine ⟨after, ?_, ?_⟩
    · simp only [reads, read, reads_eq, Source.reads]
    · simp only [Source.reads]
      rw [delivered_cons, ← List.append_assoc]
      exact last

/-- A validator passes on what its source gives and says nothing of it until a read with room meets
the end; that read and all after it give the verdict on the bytes passed on, however they were
read. -/
theorem reads_ofSource (source : Source) (expected : DigestSet) (rooms : List Nat) :
    let (results, v) := (ofSource source expected).reads rooms
    Streamed source expected rooms results v ∨
      ∃ before room after, rooms = before ++ room :: after ∧
        Judged source expected before room after.length results v := by
  have start := passing_ofSource source expected
  rcases unended_or_met source rooms with
    unended | ⟨before, room, after, rfl, unended, spacious, met⟩
  · obtain ⟨v, run, passing⟩ := start.reads_of_unended unended
    rw [run]
    rw [List.nil_append] at passing
    exact Or.inl ⟨unended, rfl, passing.source_eq, passing.bytes_eq,
      congrArg Option.isSome passing.open_, passing.finish_eq⟩
  · obtain ⟨v, run, passing⟩ := start.reads_of_unended unended
    rw [List.nil_append] at passing
    have last := passing.read_end met spacious
    rw [reads_append, run]
    simp only [reads, last]
    rw [reads_of_verdict rfl]
    exact Or.inr ⟨before, room, after, rfl, unended, spacious, met, rfl, rfl, passing.bytes_eq, rfl,
      finish_of_verdict rfl passing.bytes_eq⟩

end Validator

end LinkArchive
