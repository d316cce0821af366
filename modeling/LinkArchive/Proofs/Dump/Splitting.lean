import LinkArchive.Dump.Line
import LinkArchive.Proofs.Source.Delivery

/-!
# Splitting into lines

`splitLines` cuts a byte string into lines with all of it in hand. `found_scan` shows that a
line read from a source is the next one of those, wherever the deliveries of the source are cut, and
`Lines.Ahead` carries this through a whole source.
-/

namespace LinkArchive.Dump

/-- The lines that have an end, and what follows the last of them. CR LF is one end. -/
def cutLines : Bytes → List Bytes × Bytes
  | [] => ([], [])
  | 13 :: 10 :: rest => ([] :: (cutLines rest).1, (cutLines rest).2)
  | byte :: rest =>
    if isTerminator byte then ([] :: (cutLines rest).1, (cutLines rest).2)
    else match cutLines rest with
      | ([], tail) => ([], byte :: tail)
      | (line :: lines, tail) => ((byte :: line) :: lines, tail)

/-- The lines of some bytes. What follows the last end is a line too, unless it is empty. -/
def splitLines (bytes : Bytes) : List Bytes :=
  let (lines, tail) := cutLines bytes
  if tail.isEmpty then lines else lines ++ [tail]

/-- The bytes of a line that ended with CR do not go on with an LF. -/
def dropLf (afterCr : Bool) (bytes : Bytes) : Bytes :=
  if afterCr && bytes.head? == some lf then bytes.tail else bytes

@[simp] theorem dropLf_false (bytes : Bytes) : dropLf false bytes = bytes := by simp [dropLf]

@[simp] theorem dropLf_nil (afterCr : Bool) : dropLf afterCr [] = [] := by simp [dropLf]

theorem dropLf_cons (afterCr : Bool) (first : UInt8) (bytes : Bytes) :
    dropLf afterCr (first :: bytes) = if afterCr && first == lf then bytes else first :: bytes := by
  simp [dropLf]

theorem cutLines_of_unended {bytes : Bytes}
    (unended : bytes.dropWhile (!isTerminator ·) = []) : cutLines bytes = ([], bytes) := by
  fun_induction cutLines bytes with
  | case1 => rfl
  | case2 => simp [isTerminator, lf, cr] at unended
  | case3 byte rest _ ends => simp [ends] at unended
  | case4 byte rest _ other tail cut ih =>
    rw [List.dropWhile_cons_of_pos (by simpa using other)] at unended
    rw [ih unended] at cut
    cases cut
    rfl
  | case5 byte rest _ other line lines tail cut ih =>
    rw [List.dropWhile_cons_of_pos (by simpa using other)] at unended
    rw [ih unended] at cut
    cases cut

/-- An LF right after a CR belongs to the line before; any other byte is left alone. -/
theorem dropLf_eq_self {terminator : UInt8} {rest : Bytes}
    (apart : ∀ more, terminator = 13 → rest = 10 :: more → False) :
    dropLf (terminator == cr) rest = rest := by
  cases rest with
  | nil => simp
  | cons first more =>
    rw [dropLf_cons, if_neg]
    intro joined
    rw [Bool.and_eq_true, beq_iff_eq, beq_iff_eq] at joined
    exact apart more joined.1 (by rw [joined.2]; rfl)

theorem cutLines_of_ended {bytes more : Bytes} {terminator : UInt8}
    (ended : bytes.dropWhile (!isTerminator ·) = terminator :: more) :
    cutLines bytes =
      (bytes.takeWhile (!isTerminator ·) :: (cutLines (dropLf (terminator == cr) more)).1,
        (cutLines (dropLf (terminator == cr) more)).2) := by
  fun_induction cutLines bytes with
  | case1 => simp at ended
  | case2 rest =>
    obtain ⟨rfl, rfl⟩ : 13 = terminator ∧ 10 :: rest = more := by
      simpa [isTerminator, cr] using ended
    rfl
  | case3 byte rest apart ends =>
    obtain ⟨rfl, rfl⟩ : byte = terminator ∧ rest = more := by simpa [ends] using ended
    rw [dropLf_eq_self apart]
    simp [ends]
  | case4 byte rest _ _ tail cut ih => simp_all
  | case5 byte rest _ _ line lines tail cut ih => simp_all

/-- The first line goes up to its end, and the others are those of what follows. -/
theorem splitLines_of_terminator {line : Bytes} {terminator : UInt8}
    (unended : ∀ byte ∈ line, (!isTerminator byte) = true) (ends : isTerminator terminator = true)
    (rest : Bytes) :
    splitLines (line ++ terminator :: rest) =
      line :: splitLines (dropLf (terminator == cr) rest) := by
  have kept : (line ++ terminator :: rest).takeWhile (!isTerminator ·) = line := by
    rw [List.takeWhile_append_of_pos unended]
    simp [ends]
  have ended : (line ++ terminator :: rest).dropWhile (!isTerminator ·) = terminator :: rest := by
    rw [List.dropWhile_append_of_pos unended]
    simp [ends]
  unfold splitLines
  rw [cutLines_of_ended ended, kept]
  dsimp only
  split <;> rfl

/-! ### One line of a source -/

/-- What is found where the data stops within a line: that line, unless it is empty or lost to a
failure. -/
def LineResult.unended (text : Bytes) (failure : Option ReadError) : LineResult :=
  LineResult.prepend text (failure.elim .ended .failed)

theorem LineResult.prepend_unended (first second : Bytes) (failure : Option ReadError) :
    LineResult.prepend first (.unended second failure) = .unended (first ++ second) failure := by
  cases failure with
  | some error => rfl
  | none => cases first <;> cases second <;> simp [unended, prepend]

@[simp] theorem LineResult.unended_nil (failure : Option ReadError) :
    LineResult.unended [] failure = failure.elim .ended .failed := by
  cases failure <;> rfl

/-- What looking for a line has to find in `bytes`, which end with `failure` before `rest`. -/
def Found (bytes : Bytes) (failure : Option ReadError) (rest : Source)
    (found : LineResult × Bool × Source) : Prop :=
  match bytes.dropWhile (!isTerminator ·) with
  | [] => found.1 = .unended bytes failure ∧ found.2.2 = rest
  | terminator :: more =>
    found.1 = .line (bytes.takeWhile (!isTerminator ·)) ∧ found.2.1 = (terminator == cr) ∧
      found.2.2.readToEnd = (more, failure, rest)

theorem found_nil (failure : Option ReadError) (rest : Source) (afterCr : Bool) :
    Found [] failure rest (failure.elim .ended .failed, afterCr, rest) := by
  simp [Found]

theorem found_append {bytes more : Bytes} {terminator : UInt8} {source rest : Source}
    {after : Bytes} {failure : Option ReadError}
    (ended : bytes.dropWhile (!isTerminator ·) = terminator :: more)
    (data : source.readToEnd = (after, failure, rest)) :
    Found (bytes ++ after) failure rest
      (.line (bytes.takeWhile (!isTerminator ·)), terminator == cr,
        Source.putBack more source) := by
  have kept : (bytes ++ after).takeWhile (!isTerminator ·) = bytes.takeWhile (!isTerminator ·) ∧
      (bytes ++ after).dropWhile (!isTerminator ·) = terminator :: (more ++ after) := by
    induction bytes with
    | nil => simp at ended
    | cons byte bytes ih =>
      by_cases ends : isTerminator byte
      · simp_all
      · simp_all
  simp [Found, kept, data]

theorem Found.prepend {bytes after : Bytes} {failure : Option ReadError} {rest : Source}
    {found : LineResult × Bool × Source}
    (unended : bytes.dropWhile (!isTerminator ·) = []) (h : Found after failure rest found) :
    Found (bytes ++ after) failure rest (found.1.prepend bytes, found.2) := by
  have open_ : (bytes ++ after).takeWhile (!isTerminator ·) =
        bytes ++ after.takeWhile (!isTerminator ·) ∧
      (bytes ++ after).dropWhile (!isTerminator ·) = after.dropWhile (!isTerminator ·) := by
    induction bytes with
    | nil => simp
    | cons byte bytes ih =>
      by_cases ends : isTerminator byte
      · simp_all
      · simp_all
  unfold Found at h ⊢
  rw [open_.1, open_.2]
  split at h
  · exact ⟨by rw [h.1, LineResult.prepend_unended], h.2⟩
  · exact ⟨by rw [h.1]; rfl, h.2⟩

namespace Lines

theorem dropLf_append (afterCr : Bool) {piece : Bytes} (nonempty : piece ≠ []) (bytes : Bytes) :
    dropLf afterCr (piece ++ bytes) = dropLf afterCr piece ++ bytes := by
  obtain ⟨first, rest, rfl⟩ := List.exists_cons_of_ne_nil nonempty
  simp only [List.cons_append, dropLf_cons]
  split <;> rfl

theorem scan_chunk_of_ended {afterCr : Bool} {piece more : Bytes} {terminator : UInt8}
    (rest : Source)
    (ended : (dropLf afterCr piece).dropWhile (!isTerminator ·) = terminator :: more) :
    scan afterCr (.chunk piece :: rest) =
      (.line ((dropLf afterCr piece).takeWhile (!isTerminator ·)), terminator == cr,
        Source.putBack more rest) := by
  cases piece with
  | nil => simp at ended
  | cons first piece =>
    rw [dropLf_cons] at ended ⊢
    simp only [scan, ended]

theorem scan_chunk_of_unended {afterCr : Bool} {piece : Bytes} (rest : Source)
    (nonempty : piece ≠ []) (unended : (dropLf afterCr piece).dropWhile (!isTerminator ·) = []) :
    scan afterCr (.chunk piece :: rest) =
      ((scan false rest).1.prepend (dropLf afterCr piece), (scan false rest).2) := by
  obtain ⟨first, piece, rfl⟩ := List.exists_cons_of_ne_nil nonempty
  have whole : (dropLf afterCr (first :: piece)).takeWhile (!isTerminator ·) =
      dropLf afterCr (first :: piece) := by
    simpa [unended] using List.takeWhile_append_dropWhile (p := (!isTerminator ·))
      (l := dropLf afterCr (first :: piece))
  rw [dropLf_cons] at unended whole ⊢
  simp only [scan, unended, whole]

/-- What is found depends on the data alone, and not on how it is delivered. -/
theorem found_scan (afterCr : Bool) {source rest : Source} {bytes : Bytes}
    {failure : Option ReadError} (data : source.readToEnd = (bytes, failure, rest)) :
    Found (dropLf afterCr bytes) failure rest (scan afterCr source) := by
  induction source generalizing afterCr bytes with
  | nil =>
    obtain ⟨rfl, rfl, rfl⟩ : [] = bytes ∧ none = failure ∧ [] = rest := by
      simpa [Source.readToEnd] using data
    rw [dropLf_nil, scan]
    exact found_nil none [] afterCr
  | cons delivery source ih =>
    cases delivery with
    | failure error =>
      by_cases interrupted : error.isInterrupted
      · rw [Source.readToEnd, if_pos interrupted] at data
        rw [scan, if_pos interrupted]
        exact ih afterCr data
      · rw [Source.readToEnd, if_neg interrupted] at data
        cases data
        rw [scan, if_neg interrupted, dropLf_nil]
        exact found_nil (some error) _ afterCr
    | chunk piece =>
      by_cases nonempty : piece = []
      · subst nonempty
        rw [Source.readToEnd, if_pos List.isEmpty_nil] at data
        cases data
        rw [scan, dropLf_nil]
        exact found_nil none _ afterCr
      · rw [Source.readToEnd_chunk_append source nonempty] at data
        obtain ⟨rfl, others⟩ := Prod.mk.inj data
        have after : Source.readToEnd source = (_, failure, rest) := Prod.ext rfl others
        rw [dropLf_append afterCr nonempty]
        cases found : (dropLf afterCr piece).dropWhile (!isTerminator ·) with
        | cons terminator more =>
          rw [scan_chunk_of_ended source found]
          exact found_append found after
        | nil =>
          rw [scan_chunk_of_unended source nonempty found]
          have next := ih false after
          rw [dropLf_false] at next
          exact next.prepend found

/-! ### All lines of a source -/

/-- The lines that come before `failure`, or all of them if there is none. A failure loses what
follows the last end. -/
def linesBefore (failure : Option ReadError) (bytes : Bytes) : List Bytes :=
  if failure.isSome then (cutLines bytes).1 else splitLines bytes

theorem linesBefore_of_ended {bytes more : Bytes} {terminator : UInt8} (failure : Option ReadError)
    (ended : bytes.dropWhile (!isTerminator ·) = terminator :: more) :
    linesBefore failure bytes =
      bytes.takeWhile (!isTerminator ·) ::
        linesBefore failure (dropLf (terminator == cr) more) := by
  unfold linesBefore splitLines
  rw [cutLines_of_ended ended]
  cases failure with
  | some error => rfl
  | none =>
    by_cases tail : (cutLines (dropLf (terminator == cr) more)).2 = [] <;> simp [tail]

theorem linesBefore_of_unended {bytes : Bytes} (failure : Option ReadError)
    (unended : bytes.dropWhile (!isTerminator ·) = []) :
    linesBefore failure bytes = if failure.isSome || bytes.isEmpty then [] else [bytes] := by
  unfold linesBefore splitLines
  rw [cutLines_of_unended unended]
  cases failure <;> cases bytes <;> rfl

def unmarked (number : Nat) (lines : List Bytes) : List Bytes :=
  if number = 0 then lines.modifyHead dropMark else lines

@[simp] theorem unmarked_nil (number : Nat) : unmarked number [] = [] := by simp [unmarked]

theorem unmarked_cons (number : Nat) (line : Bytes) (lines : List Bytes) :
    unmarked number (line :: lines) = (if number = 0 then dropMark line else line) :: lines := by
  unfold unmarked
  split <;> rfl

theorem next_of_scan_line {lines : Lines} {text : Bytes} {afterCr : Bool} {left : Source}
    (scanned : scan lines.afterCr lines.source = (.line text, afterCr, left)) :
    lines.next = (.line (if lines.number = 0 then dropMark text else text),
      ⟨left, afterCr, lines.number + 1⟩) := by
  rw [next, scanned]

theorem next_of_scan_stop {lines : Lines} {failure : Option ReadError} {afterCr : Bool}
    {left : Source}
    (scanned : scan lines.afterCr lines.source = (failure.elim .ended .failed, afterCr, left)) :
    lines.next = (failure.elim .ended .failed, ⟨left, afterCr, lines.number⟩) := by
  rw [next, scanned]
  cases failure <;> rfl

/-- `ahead` are the lines still to come before the data ends with `failure`. -/
def Ahead (lines : Lines) (ahead : List Bytes) (failure : Option ReadError) : Prop :=
  ∃ bytes rest, lines.source.readToEnd = (bytes, failure, rest) ∧ (failure = none → rest = []) ∧
    ahead = unmarked lines.number (linesBefore failure (dropLf lines.afterCr bytes))

theorem ahead_nil (afterCr : Bool) (number : Nat) : Ahead ⟨[], afterCr, number⟩ [] none :=
  ⟨[], [], rfl, fun _ => rfl, by rw [dropLf_nil]; exact (unmarked_nil number).symm⟩

/-- What looking for the next of the lines ahead does. After the last of them the data ends, and
goes on ending unless that was a failure. -/
def Advances (lines after : Lines) (failure : Option ReadError) : List Bytes → Prop
  | [] => lines.next = (failure.elim .ended .failed, after) ∧ after.number = lines.number ∧
    (failure = none → after.Ahead [] none)
  | line :: ahead => lines.next = (.line line, after) ∧ after.number = lines.number + 1 ∧
    after.Ahead ahead failure

theorem next_of_ahead {lines : Lines} {ahead : List Bytes} {failure : Option ReadError}
    (h : lines.Ahead ahead failure) : ∃ after, lines.Advances after failure ahead := by
  obtain ⟨bytes, rest, data, final, rfl⟩ := h
  have look := found_scan lines.afterCr data
  generalize dropLf lines.afterCr bytes = text at look
  rcases scanned : scan lines.afterCr lines.source with ⟨result, afterCr, left⟩
  rw [scanned] at look
  unfold Found at look
  split at look
  · rename_i unended
    obtain ⟨rfl, rfl⟩ := look
    rw [linesBefore_of_unended failure unended]
    cases failure with
    | some error =>
      -- the line is lost, so there is none ahead
      show ∃ after, lines.Advances after (some error) (unmarked lines.number [])
      rw [unmarked_nil]
      exact ⟨_, next_of_scan_stop scanned, rfl, nofun⟩
    | none =>
      obtain rfl := final rfl
      cases text with
      | nil =>
        show ∃ after, lines.Advances after none (unmarked lines.number [])
        rw [unmarked_nil]
        exact ⟨_, next_of_scan_stop scanned, rfl, fun _ => ahead_nil _ _⟩
      | cons byte text =>
        show ∃ after, lines.Advances after none (unmarked lines.number [byte :: text])
        rw [unmarked_cons]
        exact ⟨_, next_of_scan_line scanned, rfl, ahead_nil _ _⟩
  · rename_i terminator more ended
    obtain ⟨rfl, rfl, remaining⟩ := look
    rw [linesBefore_of_ended failure ended, unmarked_cons]
    exact ⟨_, next_of_scan_line scanned, rfl, more, rest, remaining, final, rfl⟩

end Lines

end LinkArchive.Dump
