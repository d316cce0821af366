import LinkArchive.Proofs.Digest.Recorded
import LinkArchive.Proofs.Text.Cut
import LinkArchive.Proofs.Text.Hex

/-!
# Changing a digest set

A digest that is given as a text is refused for one reason, or put in place of the one that the set
had; and whatever is done to a set, a digest that it holds has its algorithm's length and was given
to it: `DigestSet.attempt_outcome`.
-/

namespace LinkArchive

/-! ### Digits with white space around them -/

namespace Text

theorem dropTrailing_append_of_all {α : Type} {p : α → Bool} (list : List α) {tail : List α}
    (all : ∀ x ∈ tail, p x = true) : dropTrailing p (list ++ tail) = dropTrailing p list := by
  rw [dropTrailing, dropTrailing, List.reverse_append, List.dropWhile_append_of_pos]
  intro x member
  exact all x (List.mem_reverse.mp member)

theorem trim_around {before after : List Char} {digits : String}
    (blank : ∀ c ∈ before, isBlank c = true) (shown : ∀ c ∈ digits.toList, isBlank c = false)
    (blank_after : ∀ c ∈ after, isBlank c = true) :
    trim (String.ofList (before ++ digits.toList ++ after)) = digits := by
  have last : dropTrailing isBlank digits.toList = digits.toList :=
    dropTrailing_eq_self_iff.mpr fun c last => shown c (List.mem_of_getLast? last)
  rw [trim, String.toList_ofList, List.append_assoc, List.dropWhile_append_of_pos blank]
  cases chars : digits.toList with
  | nil =>
    have none : after.dropWhile isBlank = [] := List.dropWhile_eq_nil_iff.mpr blank_after
    rw [List.nil_append, none, String.toList_eq_nil_iff.mp chars]
    rfl
  | cons c rest =>
    have first : isBlank c = false := shown c (by simp [chars])
    rw [List.cons_append, List.dropWhile_cons_of_neg (by simp [first]), ← List.cons_append, ← chars,
      dropTrailing_append_of_all _ blank_after, last, String.ofList_toList]

theorem isBlank_of_toLower {digits : String} {bytes : Bytes}
    (written : digits.toLower = toHex bytes) : ∀ c ∈ digits.toList, isBlank c = false := by
  have all : ∀ code < 128, isHexDigit (UInt8.ofNat code) = true →
      isBlank (Char.ofNat code) = false := by decide +kernel
  intro c present
  obtain ⟨ascii, digit⟩ := isHexDigit_of_mem written c present
  rw [← Char.ofNat_toNat c]
  exact all c.toNat ascii digit

end Text

/-- What is wrong with a digest that is recorded as a text, or what it comes to. -/
theorem Algorithm.recorded_outcome (algorithm : Algorithm) (text : String) :
    let digits := Text.trim text
    let bytes := Bytes.ofText digits
    let recorded := algorithm.recorded (some text)
    if digits = "" then recorded = .ok none
    else if bytes.length % 2 = 1 then recorded = .error (.badHex .oddLength)
    else match bytes.dropWhile Text.isHexDigit with
      | byte :: _ => recorded =
          .error (.badHex (.badDigit byte (bytes.takeWhile Text.isHexDigit).length))
      | [] => ∃ decoded, digits.toLower = Text.toHex decoded ∧ recorded =
          if decoded.length = algorithm.size then .ok (some decoded)
          else .error (.wrongLength algorithm algorithm.size decoded.length) := by
  dsimp only [recorded]
  generalize Text.trim text = digits
  have outcome := Text.ofHex_outcome digits
  dsimp only at outcome
  generalize Bytes.ofText digits = bytes at outcome ⊢
  by_cases blank : digits = ""
  · rw [if_pos blank]
    exact if_pos (by simp [blank])
  · have shown : digits.isEmpty = false := by simpa using blank
    simp only [if_neg blank, shown, Bool.false_eq_true, if_false]
    by_cases odd : bytes.length % 2 = 1
    · rw [if_pos odd] at outcome ⊢
      rw [outcome]
    · rw [if_neg odd] at outcome ⊢
      cases left : bytes.dropWhile Text.isHexDigit with
      | cons byte _ =>
        rw [left] at outcome
        rw [outcome]
      | nil =>
        rw [left] at outcome
        obtain ⟨decoded, read, written⟩ := outcome
        exact ⟨decoded, written, by rw [read]⟩

/-- Digits of either case are taken for the digest that they write. -/
theorem Algorithm.recorded_of_toLower (algorithm : Algorithm) {text : String} {digest : Bytes}
    (written : (Text.trim text).toLower = Text.toHex digest)
    (length : digest.length = algorithm.size) :
    algorithm.recorded (some text) = .ok (some digest) := by
  have shown : Text.trim text ≠ "" := by
    intro blank
    have none : "".toLower = Text.toHex [] := by decide +kernel
    rw [blank, none] at written
    obtain rfl := Text.toHex_injective written
    cases algorithm <;> cases length
  have some : (Text.trim text).isEmpty = false := by simpa using shown
  simp only [recorded, some, Text.ofHex_of_toLower written, length, Bool.false_eq_true, if_false,
    if_true]

namespace DigestSet

variable {set : DigestSet} {algorithm : Algorithm} {digest : Bytes}

/-! ### Changes -/

/-- A call that changes a set. -/
inductive Change where
  | set (algorithm : Algorithm) (bytes : Bytes)
  | setHex (algorithm : Algorithm) (text : String)
  | put (algorithm : Algorithm) (value : Digest.Value algorithm)
  | withCrc32 (checksum : UInt32)
  | merge (other : DigestSet)

def change (set : DigestSet) : Change → Except DigestError DigestSet
  | .set algorithm bytes => set.set algorithm bytes
  | .setHex algorithm text => set.setHex algorithm text
  | .put algorithm value => .ok (set.put algorithm value)
  | .withCrc32 checksum => .ok (set.withCrc32 checksum)
  | .merge other => .ok (set.merge other)

/-- What a change comes to, and the set after it. A change that fails leaves the set as it was. -/
def attempt (set : DigestSet) (change : Change) : Except DigestError Unit × DigestSet :=
  match set.change change with
  | .ok next => (.ok (), next)
  | .error error => (.error error, set)

/-- The set after some changes, those that fail among them. -/
def changed (set : DigestSet) (changes : List Change) : DigestSet :=
  changes.foldl (fun set change => (set.attempt change).2) set

/-- The digest that a change gives for an algorithm, as it is given. -/
def Change.Gives (algorithm : Algorithm) (digest : Bytes) : Change → Prop
  | .set given bytes => given = algorithm ∧ bytes = digest
  | .setHex given text => given = algorithm ∧ (Text.trim text).toLower = Text.toHex digest
  | .put given value => given = algorithm ∧ value.val = digest
  | .withCrc32 checksum => algorithm = .crc32 ∧ Algorithm.checksumBytes checksum = digest
  | .merge other => other.get? algorithm = some digest

theorem length_of_get? (held : set.get? algorithm = some digest) :
    digest.length = algorithm.size := by
  obtain ⟨value, -, rfl⟩ := Option.map_eq_some_iff.mp held
  exact value.property

theorem get?_merge (set other : DigestSet) (algorithm : Algorithm) :
    (set.merge other).get? algorithm = (other.get? algorithm).or (set.get? algorithm) := by
  rw [get?, slot_merge]
  unfold get?
  cases other.slot algorithm <;> rfl

/-! ### Digests as text -/

theorem attempt_setHex_of_error {text : String} {error : DigestError}
    (malformed : algorithm.recorded (some text) = .error error) :
    set.attempt (.setHex algorithm text) = (.error error, set) := by
  have recorded := set.record_spec algorithm (some text)
  rw [malformed] at recorded
  have failed : set.change (.setHex algorithm text) = .error error := recorded
  rw [attempt, failed]

theorem attempt_setHex_of_ok (set : DigestSet) {text : String} {value : Option Bytes}
    (fine : algorithm.recorded (some text) = .ok value) :
    (set.attempt (.setHex algorithm text)).1 = .ok () ∧
      ∀ other, (set.attempt (.setHex algorithm text)).2.get? other =
        if other = algorithm then value.or (set.get? other) else set.get? other := by
  have recorded := set.record_spec algorithm (some text)
  rw [fine] at recorded
  obtain ⟨next, recorded, known⟩ := recorded
  have changed : set.change (.setHex algorithm text) = .ok next := recorded
  rw [attempt, changed]
  exact ⟨rfl, known⟩

theorem attempt_setHex_of_blank {text : String} (blank : Text.trim text = "") :
    set.attempt (.setHex algorithm text) = (.ok (), set) := by
  have unchanged : set.change (.setHex algorithm text) = .ok set := if_pos (by simp [blank])
  rw [attempt, unchanged]

/-! ### Any changes -/

theorem gives_of_recorded {text : String}
    (recorded : algorithm.recorded (some text) = .ok (some digest)) :
    (Change.setHex algorithm text).Gives algorithm digest := by
  have outcome := algorithm.recorded_outcome text
  dsimp only at outcome
  rw [recorded] at outcome
  split at outcome
  · cases outcome
  split at outcome
  · cases outcome
  split at outcome
  · cases outcome
  · obtain ⟨decoded, written, same⟩ := outcome
    split at same
    · cases same
      exact ⟨rfl, written⟩
    · cases same

theorem given_of_put {given : Algorithm} {value : Digest.Value given}
    (held : (set.put given value).get? algorithm = some digest) :
    set.get? algorithm = some digest ∨ given = algorithm ∧ value.val = digest := by
  rw [get?_put] at held
  split at held
  · rename_i same
    exact .inr ⟨same.symm, Option.some.inj held⟩
  · exact .inl held

theorem given_of_change {change : Change} {next : DigestSet}
    (changed : set.change change = .ok next) (held : next.get? algorithm = some digest) :
    set.get? algorithm = some digest ∨ change.Gives algorithm digest := by
  cases change with
  | set given bytes =>
    have changed : set.set given bytes = .ok next := changed
    unfold DigestSet.set at changed
    split at changed
    · cases changed
      exact .inl held
    · split at changed
      · cases changed
        exact given_of_put held
      · cases changed
  | setHex given text =>
    have changed : set.record given (some text) = .ok next := changed
    have spec := set.record_spec given (some text)
    rw [changed] at spec
    cases recorded : given.recorded (some text) with
    | error error =>
      rw [recorded] at spec
      cases spec
    | ok value =>
      rw [recorded] at spec
      obtain ⟨_, same, known⟩ := spec
      cases same
      rw [known] at held
      split at held
      · rename_i same
        subst same
        cases value with
        | none => exact .inl held
        | some value =>
          cases held
          exact .inr (gives_of_recorded recorded)
      · exact .inl held
  | put given value =>
    cases changed
    exact given_of_put held
  | withCrc32 checksum =>
    cases changed
    exact (given_of_put held).imp_right fun ⟨same, bytes⟩ => ⟨same.symm, bytes⟩
  | merge other =>
    cases changed
    rw [get?_merge] at held
    exact (Option.or_eq_some_iff.mp held).symm.imp And.right id

theorem given_of_attempt {change : Change}
    (held : (set.attempt change).2.get? algorithm = some digest) :
    set.get? algorithm = some digest ∨ change.Gives algorithm digest := by
  unfold attempt at held
  cases changed : set.change change with
  | error error =>
    rw [changed] at held
    exact .inl held
  | ok next =>
    rw [changed] at held
    exact given_of_change changed held

/-- A digest that a set holds was there before, or one of the changes gave it. -/
theorem given_of_changed {changes : List Change}
    (held : (set.changed changes).get? algorithm = some digest) :
    set.get? algorithm = some digest ∨ ∃ change ∈ changes, change.Gives algorithm digest := by
  induction changes generalizing set with
  | nil => exact .inl held
  | cons change changes ih =>
    rcases ih held with before | ⟨later, listed, gives⟩
    · rcases given_of_attempt before with had | gives
      · exact .inl had
      · exact .inr ⟨change, List.mem_cons_self, gives⟩
    · exact .inr ⟨later, List.mem_cons_of_mem _ listed, gives⟩

/-- A digest that is given as a text is refused for the first of three reasons, and the set is left
as it was, or it takes the place of the digest that the set had, unless the text is blank. In
particular any digest of the right length can be given in digits of either case. Whatever is done to
a set, a digest that it holds has its algorithm's length, and was there before or given. -/
theorem attempt_outcome (set : DigestSet) (algorithm : Algorithm) :
    (∀ text,
      let digits := Text.trim text
      let bytes := Bytes.ofText digits
      let outcome := set.attempt (.setHex algorithm text)
      if digits = "" then outcome = (.ok (), set)
      else if bytes.length % 2 = 1 then outcome = (.error (.badHex .oddLength), set)
      else match bytes.dropWhile Text.isHexDigit with
        | byte :: _ =>
          let place := (bytes.takeWhile Text.isHexDigit).length
          outcome = (.error (.badHex (.badDigit byte place)), set)
        | [] => ∃ decoded, digits.toLower = Text.toHex decoded ∧
          if decoded.length = algorithm.size then
            outcome.1 = .ok () ∧ ∀ other, outcome.2.get? other =
              if other = algorithm then some decoded else set.get? other
          else outcome = (.error (.wrongLength algorithm algorithm.size decoded.length), set)) ∧
    (∀ (digest : Bytes) (digits : String) (before after : List Char),
      digest.length = algorithm.size → digits.toLower = Text.toHex digest →
      (∀ c ∈ before, Text.isBlank c = true) → (∀ c ∈ after, Text.isBlank c = true) →
      let text := String.ofList (before ++ digits.toList ++ after)
      let outcome := set.attempt (.setHex algorithm text)
      outcome.1 = .ok () ∧ outcome.2.get? algorithm = some digest) ∧
    ∀ changes digest, (set.changed changes).get? algorithm = some digest →
      digest.length = algorithm.size ∧
        (set.get? algorithm = some digest ∨
          ∃ change ∈ changes, change.Gives algorithm digest) := by
  refine ⟨?_, ?_, ?_⟩
  · intro text
    have recorded := algorithm.recorded_outcome text
    dsimp only at recorded ⊢
    by_cases blank : Text.trim text = ""
    · rw [if_pos blank]
      exact attempt_setHex_of_blank blank
    rw [if_neg blank] at recorded ⊢
    by_cases odd : (Bytes.ofText (Text.trim text)).length % 2 = 1
    · rw [if_pos odd] at recorded ⊢
      exact attempt_setHex_of_error recorded
    rw [if_neg odd] at recorded ⊢
    cases left : (Bytes.ofText (Text.trim text)).dropWhile Text.isHexDigit with
    | cons byte _ =>
      rw [left] at recorded
      exact attempt_setHex_of_error recorded
    | nil =>
      rw [left] at recorded
      obtain ⟨decoded, written, recorded⟩ := recorded
      refine ⟨decoded, written, ?_⟩
      by_cases fits : decoded.length = algorithm.size
      · rw [if_pos fits] at recorded ⊢
        exact attempt_setHex_of_ok set recorded
      · rw [if_neg fits] at recorded ⊢
        exact attempt_setHex_of_error recorded
  · intro digest digits before after length written blank blank_after text
    have trimmed : Text.trim text = digits :=
      Text.trim_around blank (Text.isBlank_of_toLower written) blank_after
    have recorded := algorithm.recorded_of_toLower (trimmed ▸ written) length
    obtain ⟨done, known⟩ := attempt_setHex_of_ok set recorded
    exact ⟨done, by rw [known, if_pos rfl, Option.some_or]⟩
  · intro changes digest held
    exact ⟨length_of_get? held, given_of_changed held⟩

/-- A checksum in digits of both cases with white space around them, and one that is refused. -/
theorem attempt_outcome_of_mixed_case :
    let set := empty.withCrc32 7
    let digest : Bytes := [0x0d, 0x4a, 0x11, 0x85]
    let before := ['\u2003', ' ']
    let changes : List Change := [.setHex .crc32 "0d4A1185 ", .setHex .crc32 "zz"]
    let outcome :=
      set.attempt (.setHex .crc32 (String.ofList (before ++ "0d4A1185".toList ++ ['\n'])))
    digest.length = Algorithm.crc32.size ∧ "0d4A1185".toLower = Text.toHex digest ∧
      (∀ c ∈ before, Text.isBlank c = true) ∧ (∀ c ∈ ['\n'], Text.isBlank c = true) ∧
      (outcome.1 = .ok () ∧ outcome.2.get? .crc32 = some digest) ∧
      (set.changed changes).get? .crc32 = some digest ∧ digest.length = Algorithm.crc32.size ∧
      (set.get? .crc32 = some digest ∨ ∃ change ∈ changes, change.Gives .crc32 digest) := by
  intro set digest before changes outcome
  have written : "0d4A1185".toLower = Text.toHex digest := by decide +kernel
  have blank : ∀ c ∈ before, Text.isBlank c = true := List.all_eq_true.mp (by decide)
  have blank_after : ∀ c ∈ ['\n'], Text.isBlank c = true := List.all_eq_true.mp (by decide)
  have held : (set.changed changes).get? .crc32 = some digest := by decide +kernel
  obtain ⟨-, given, kept⟩ := attempt_outcome set .crc32
  exact ⟨rfl, written, blank, blank_after,
    given digest "0d4A1185" before ['\n'] rfl written blank blank_after, held,
    kept changes digest held⟩

end DigestSet

end LinkArchive
