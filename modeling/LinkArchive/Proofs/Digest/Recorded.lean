import LinkArchive.Listing.Entry
import LinkArchive.Proofs.Text.Utf8
import LinkArchive.Proofs.Validator.Verdict

/-!
# Recorded digests

A digest is recorded as a text, or not at all. `Algorithm.recorded` says what it comes to by
itself, and a file has the digests that its texts come to, unless one is malformed:
`FileEntry.digests_of_recorded`, `FileEntry.digests_of_malformed`.
-/

namespace LinkArchive

/-! ### One digest -/

theorem Text.eq_nil_of_ofHexDigits {position : Nat} {digits : Bytes}
    (found : ofHexDigits position digits = .ok []) : digits = [] := by
  unfold ofHexDigits at found
  split at found
  · rfl
  · cases found
  · split at found
    · cases found
    · cases found
    · cases rest : ofHexDigits (position + 2) _ <;> rw [rest] at found <;> cases found

theorem Text.ofHex_ne_nil {digits : String} (given : digits ≠ "") : ofHex digits ≠ .ok [] := by
  intro found
  unfold ofHex at found
  dsimp only at found
  split at found
  · cases found
  · have none := eq_nil_of_ofHexDigits found
    have text := congrArg Bytes.toText? none
    rw [Bytes.toText?_ofText] at text
    exact given (Option.some.inj (text.trans (by decide +kernel : Bytes.toText? [] = some "")))

/-- What a recorded digest comes to: to nothing, if it is missing or blank. -/
def Algorithm.recorded (algorithm : Algorithm) : Option String → Except DigestError (Option Bytes)
  | none => .ok none
  | some text =>
    let digits := Text.trim text
    if digits.isEmpty then .ok none
    else match Text.ofHex digits with
      | .error error => .error (.badHex error)
      | .ok bytes =>
        if bytes.length = algorithm.size then .ok (some bytes)
        else .error (.wrongLength algorithm algorithm.size bytes.length)

namespace DigestSet

variable {algorithm : Algorithm} {set : DigestSet}

/-- The set with a digest as it is recorded. -/
def record (set : DigestSet) (algorithm : Algorithm) : Option String → Except DigestError DigestSet
  | some text => set.setHex algorithm text
  | none => .ok set

theorem get?_put (set : DigestSet) (algorithm other : Algorithm) (value : Digest.Value algorithm) :
    (set.put algorithm value).get? other =
      if other = algorithm then some value.val else set.get? other := by
  split
  · rename_i same
    subst same
    rw [get?, slot_put_self]
    rfl
  · rename_i different
    rw [get?, slot_put_of_ne set value different]
    rfl

/-- Recording a digest fails for what is wrong with it, and changes no other digest. -/
theorem record_spec (set : DigestSet) (algorithm : Algorithm) (text : Option String) :
    match algorithm.recorded text with
    | .error error => set.record algorithm text = .error error
    | .ok value => ∃ next, set.record algorithm text = .ok next ∧
        ∀ other, next.get? other =
          if other = algorithm then value.or (set.get? other) else set.get? other := by
  have unchanged : ∃ next, Except.ok set = (.ok next : Except DigestError DigestSet) ∧
      ∀ other, next.get? other =
        if other = algorithm then Option.none.or (set.get? other) else set.get? other :=
    ⟨set, rfl, fun other => by simp⟩
  cases text with
  | none => exact unchanged
  | some text =>
    simp only [Algorithm.recorded, record, setHex]
    by_cases blank : (Text.trim text).isEmpty = true
    · simp only [blank, if_true]
      exact unchanged
    · rw [if_neg blank, if_neg blank]
      cases found : Text.ofHex (Text.trim text) with
      | error error => rfl
      | ok bytes =>
        have some : bytes ≠ [] := by
          rintro rfl
          exact Text.ofHex_ne_nil (by simpa using blank) found
        have taken : bytes.isEmpty = false := by simpa using some
        dsimp only
        by_cases length_eq : bytes.length = algorithm.size
        · have put : set.set algorithm bytes = .ok (set.put algorithm ⟨bytes, length_eq⟩) := by
            rw [DigestSet.set, taken, if_neg (by simp), dif_pos length_eq]
          rw [if_pos length_eq, put]
          refine ⟨_, rfl, fun other => ?_⟩
          rw [get?_put]
          split <;> simp
        · rw [if_neg length_eq]
          dsimp only
          rw [DigestSet.set, taken, if_neg (by simp), dif_neg length_eq]

/-! ### Several digests -/

variable {algorithms : List Algorithm} {texts : Algorithm → Option String}

theorem foldlM_record {values : Algorithm → Option Bytes}
    (fine : ∀ algorithm ∈ algorithms, algorithm.recorded (texts algorithm) = .ok (values algorithm))
    (set : DigestSet) :
    ∃ last, algorithms.foldlM (fun set algorithm => set.record algorithm (texts algorithm)) set =
        .ok last ∧
      ∀ other, last.get? other =
        if other ∈ algorithms then (values other).or (set.get? other) else set.get? other := by
  induction algorithms generalizing set with
  | nil => exact ⟨set, rfl, fun other => by simp⟩
  | cons algorithm algorithms ih =>
    have first := set.record_spec algorithm (texts algorithm)
    rw [fine algorithm List.mem_cons_self] at first
    obtain ⟨next, recorded, known⟩ := first
    obtain ⟨last, others, alsoKnown⟩ := ih (fun other member =>
      fine other (List.mem_cons_of_mem _ member)) next
    refine ⟨last, ?_, fun other => ?_⟩
    · rw [List.foldlM_cons, recorded]
      exact others
    · rw [alsoKnown, known]
      by_cases same : other = algorithm
      · subst same
        cases values other <;> simp
      · simp [same]

theorem foldlM_record_of_malformed {before after : List Algorithm} {error : DigestError}
    (fine : ∀ earlier ∈ before, ∃ value, earlier.recorded (texts earlier) = .ok value)
    (malformed : algorithm.recorded (texts algorithm) = .error error) (set : DigestSet) :
    (before ++ algorithm :: after).foldlM
      (fun set algorithm => set.record algorithm (texts algorithm)) set = .error error := by
  let values (algorithm : Algorithm) : Option Bytes :=
    (algorithm.recorded (texts algorithm)).toOption.join
  have known : ∀ earlier ∈ before, earlier.recorded (texts earlier) = .ok (values earlier) := by
    intro earlier member
    obtain ⟨value, recorded⟩ := fine earlier member
    simp only [values, recorded]
    rfl
  obtain ⟨last, recorded, -⟩ := foldlM_record known set
  have stopped := last.record_spec algorithm (texts algorithm)
  rw [malformed] at stopped
  rw [List.foldlM_append, recorded]
  show (last.record algorithm (texts algorithm)).bind _ = _
  rw [stopped]
  rfl

end DigestSet

namespace FileEntry

variable {entry : FileEntry}

/-- The digest that is recorded for a file, as it is written. -/
def digestText (entry : FileEntry) : Algorithm → Option String
  | .md5 => entry.md5
  | .sha1 => entry.sha1
  | .crc32 => entry.crc32

theorem digests_eq (entry : FileEntry) :
    entry.digests = Algorithm.all.foldlM
      (fun set algorithm => set.record algorithm (entry.digestText algorithm)) .empty := rfl

theorem digests_of_recorded {values : Algorithm → Option Bytes}
    (fine : ∀ algorithm : Algorithm,
      algorithm.recorded (entry.digestText algorithm) = .ok (values algorithm)) :
    ∃ set, entry.digests = .ok set ∧ set.get? = values := by
  have all : ∀ algorithm ∈ Algorithm.all,
      algorithm.recorded (entry.digestText algorithm) = .ok (values algorithm) :=
    fun algorithm _ => fine algorithm
  obtain ⟨set, recorded, known⟩ := DigestSet.foldlM_record all .empty
  refine ⟨set, recorded, ?_⟩
  funext algorithm
  have listed : algorithm ∈ Algorithm.all := by cases algorithm <;> decide
  have none : DigestSet.empty.get? algorithm = Option.none := by cases algorithm <;> rfl
  rw [known, if_pos listed, none, Option.or_none]

/-- The first malformed digest in checking order is what is wrong with them. -/
theorem digests_of_malformed {algorithm : Algorithm} {error : DigestError}
    (malformed : algorithm.recorded (entry.digestText algorithm) = .error error)
    (earlier : ∀ other : Algorithm, other.rank < algorithm.rank →
      ∃ value, other.recorded (entry.digestText other) = .ok value) :
    entry.digests = .error error := by
  have split : ∃ before after, Algorithm.all = before ++ algorithm :: after ∧
      ∀ other ∈ before, other.rank < algorithm.rank := by
    cases algorithm with
    | md5 => exact ⟨[], _, rfl, by simp⟩
    | sha1 => exact ⟨[.md5], _, rfl, by decide⟩
    | crc32 => exact ⟨[.md5, .sha1], _, rfl, by decide⟩
  obtain ⟨before, after, all, before_lt⟩ := split
  rw [digests_eq, all]
  exact DigestSet.foldlM_record_of_malformed
    (fun other member => earlier other (before_lt other member)) malformed .empty

end FileEntry

end LinkArchive
