import LinkArchive.Proofs.Dump.Calls
import Mathlib.Logic.Function.Iterate

/-!
# What a reader leaves of its source

A reader takes whole lines and nothing of the next one, so its source can be read on from there:
`DumpReader.rest_of_answers`. Only the LF of a CR LF may be left to be taken with the next line.
-/

namespace LinkArchive

namespace Dump

/-! ### Behind some lines -/

/-- What follows the first line of some bytes and its end. -/
def behindLine (bytes : Bytes) : Bytes :=
  match bytes.dropWhile (!isTerminator ·) with
  | [] => []
  | terminator :: more => dropLf (terminator == cr) more

variable {bytes : Bytes}

theorem splitLines_of_ended {terminator : UInt8} {more : Bytes}
    (ended : bytes.dropWhile (!isTerminator ·) = terminator :: more) :
    splitLines bytes =
      bytes.takeWhile (!isTerminator ·) :: splitLines (dropLf (terminator == cr) more) :=
  Lines.linesBefore_of_ended none ended

theorem splitLines_of_unended (unended : bytes.dropWhile (!isTerminator ·) = []) :
    splitLines bytes = if bytes.isEmpty then [] else [bytes] :=
  Lines.linesBefore_of_unended none unended

theorem cut_of_ended {terminator : UInt8} {more : Bytes}
    (ended : bytes.dropWhile (!isTerminator ·) = terminator :: more) :
    bytes = bytes.takeWhile (!isTerminator ·) ++ terminator :: more ∧
      (∀ byte ∈ bytes.takeWhile (!isTerminator ·), (!isTerminator byte) = true) ∧
      isTerminator terminator = true := by
  refine ⟨?_, ?_, ?_⟩
  · rw [← ended, List.takeWhile_append_dropWhile]
  · intro byte member
    exact List.mem_takeWhile_imp (p := (!isTerminator ·)) member
  · have stop := List.head?_dropWhile_not (!isTerminator ·) bytes
    rw [ended] at stop
    simpa using stop

theorem eq_nil_of_splitLines (none : splitLines bytes = []) : bytes = [] := by
  cases left : bytes.dropWhile (!isTerminator ·) with
  | cons terminator more =>
    rw [splitLines_of_ended left] at none
    cases none
  | nil =>
    rw [splitLines_of_unended left] at none
    simpa using none

theorem splitLines_behindLine (bytes : Bytes) :
    splitLines (behindLine bytes) = (splitLines bytes).tail := by
  unfold behindLine
  split
  · rename_i unended
    rw [splitLines_of_unended unended]
    split <;> rfl
  · rename_i ended
    rw [splitLines_of_ended ended, List.tail_cons]

theorem splitLines_iterate_behindLine (count : Nat) (bytes : Bytes) :
    splitLines (behindLine^[count] bytes) = (splitLines bytes).drop count := by
  induction count with
  | zero => rfl
  | succ count ih =>
    rw [Function.iterate_succ_apply', splitLines_behindLine, ih, List.tail_drop]

theorem lt_length_of_iterate_behindLine {count : Nat} (more : behindLine^[count] bytes ≠ []) :
    count < (splitLines bytes).length := by
  apply Nat.lt_of_not_le
  intro past
  apply more
  apply eq_nil_of_splitLines
  rw [splitLines_iterate_behindLine, List.drop_eq_nil_of_le past]

theorem dropLf_suffix (afterCr : Bool) (bytes : Bytes) : dropLf afterCr bytes <:+ bytes := by
  unfold dropLf
  split
  · exact List.tail_suffix bytes
  · exact List.suffix_refl bytes

/-- What a CR takes with it is taken again from the beginning alone. -/
theorem exists_append_of_dropLf {afterCr : Bool} {more ended rest : Bytes}
    (left : dropLf afterCr more = ended ++ rest) :
    ∃ lead, more = lead ++ (ended ++ rest) ∧ dropLf afterCr (lead ++ ended) = ended := by
  cases more with
  | nil =>
    rw [dropLf_nil] at left
    obtain ⟨rfl, rfl⟩ := List.append_eq_nil_iff.mp left.symm
    exact ⟨[], rfl, dropLf_nil afterCr⟩
  | cons first more =>
    rw [dropLf_cons] at left
    split at left
    · rename_i joined
      refine ⟨[first], congrArg _ left, ?_⟩
      rw [List.singleton_append, dropLf_cons, if_pos joined]
    · rename_i apart
      refine ⟨[], left, ?_⟩
      cases ended with
      | nil => exact dropLf_nil afterCr
      | cons byte ended =>
        obtain rfl : first = byte := (List.cons.inj left).1
        rw [List.nil_append, dropLf_cons, if_neg apart]

/-- Some bytes are their first lines and what follows these. -/
theorem exists_append_iterate_behindLine (count : Nat) (bytes : Bytes) :
    ∃ ended, bytes = ended ++ behindLine^[count] bytes ∧
      splitLines ended = (splitLines bytes).take count := by
  induction count generalizing bytes with
  | zero => exact ⟨[], rfl, rfl⟩
  | succ count ih =>
    rw [Function.iterate_succ_apply]
    cases left : bytes.dropWhile (!isTerminator ·) with
    | nil =>
      have none : behindLine bytes = [] := by rw [behindLine, left]
      have still : behindLine^[count] [] = [] := Function.iterate_fixed rfl count
      refine ⟨bytes, by rw [none, still, List.append_nil], ?_⟩
      rw [splitLines_of_unended left]
      split <;> simp
    | cons terminator more =>
      have behind : behindLine bytes = dropLf (terminator == cr) more := by rw [behindLine, left]
      obtain ⟨ended, whole, lines⟩ := ih (dropLf (terminator == cr) more)
      obtain ⟨lead, more_eq, again⟩ := exists_append_of_dropLf whole
      obtain ⟨cut, text, ends⟩ := cut_of_ended left
      refine ⟨bytes.takeWhile (!isTerminator ·) ++ terminator :: (lead ++ ended), ?_, ?_⟩
      · rw [behind]
        calc bytes = bytes.takeWhile (!isTerminator ·) ++ terminator :: more := cut
          _ = bytes.takeWhile (!isTerminator ·) ++ terminator :: (lead ++ (ended ++
              behindLine^[count] (dropLf (terminator == cr) more))) := by rw [← more_eq]
          _ = bytes.takeWhile (!isTerminator ·) ++ terminator :: (lead ++ ended) ++
              behindLine^[count] (dropLf (terminator == cr) more) := by simp
      · rw [splitLines_of_terminator text ends, again, lines, splitLines_of_ended left,
          List.take_succ_cons]

/-! ### Where reading stands -/

/-- A source of which the lines that were counted have been taken, and what it has still to
deliver. -/
structure Lines.Leaves (lines : Lines) (bytes front data : Bytes) : Prop where
  remaining : lines.source.readToEnd = (data, none, [])
  whole : bytes = front ++ data
  behind : dropLf lines.afterCr data = behindLine^[lines.number] bytes
  counted : lines.number ≤ (splitLines bytes).length
  /-- An LF that is left behind a CR belongs to it. -/
  joined : lines.afterCr = true → data.head? = some lf → [cr] <:+ front

/-- Reading stands behind the lines of `bytes` that were counted. -/
def Lines.Stands (bytes : Bytes) (lines : Lines) : Prop :=
  ∃ front data, lines.Leaves bytes front data

theorem Lines.stands_of_readToEnd {source : Source} (data : source.readToEnd = (bytes, none, [])) :
    Lines.Stands bytes { source } :=
  ⟨[], bytes, data, rfl, dropLf_false bytes, Nat.zero_le _, nofun⟩

theorem Lines.Stands.next {lines : Lines} (stands : lines.Stands bytes) :
    lines.next.2.Stands bytes := by
  obtain ⟨front, data, left⟩ := stands
  have look := found_scan lines.afterCr left.remaining
  obtain ⟨lead, data_eq⟩ := dropLf_suffix lines.afterCr data
  rw [left.behind] at look data_eq
  have whole : bytes = front ++ lead ++ behindLine^[lines.number] bytes := by
    rw [List.append_assoc, data_eq]
    exact left.whole
  generalize text_eq : behindLine^[lines.number] bytes = text at look whole
  have counted (more : text ≠ []) : lines.number + 1 ≤ (splitLines bytes).length :=
    lt_length_of_iterate_behindLine (text_eq ▸ more)
  have behind : behindLine^[lines.number + 1] bytes = behindLine text := by
    rw [Function.iterate_succ_apply', text_eq]
  rcases scanned : scan lines.afterCr lines.source with ⟨result, afterCr, source⟩
  rw [scanned] at look
  unfold Found at look
  split at look
  · rename_i unended
    obtain ⟨rfl, rfl⟩ := look
    have all : bytes = bytes ++ [] := (List.append_nil bytes).symm
    cases text with
    | nil =>
      have stopped : scan lines.afterCr lines.source =
          ((none : Option ReadError).elim .ended .failed, afterCr, []) := scanned
      rw [next_of_scan_stop stopped]
      exact ⟨bytes, [], rfl, all, (dropLf_nil afterCr).trans text_eq.symm, left.counted, nofun⟩
    | cons byte text =>
      have none : behindLine (byte :: text) = [] := by rw [behindLine, unended]
      rw [next_of_scan_line scanned]
      exact ⟨bytes, [], rfl, all, (dropLf_nil afterCr).trans (behind.trans none).symm,
        counted (List.cons_ne_nil byte text), nofun⟩
  · rename_i terminator more ended
    obtain ⟨rfl, rfl, remaining⟩ := look
    obtain ⟨cut, -, -⟩ := cut_of_ended ended
    have nonempty : text ≠ [] := by
      rintro rfl
      cases ended
    rw [next_of_scan_line scanned]
    refine ⟨front ++ lead ++ text.takeWhile (!isTerminator ·) ++ [terminator], more, remaining, ?_,
      ?_, counted nonempty, ?_⟩
    · calc bytes = front ++ lead ++ text := whole
        _ = front ++ lead ++ (text.takeWhile (!isTerminator ·) ++ terminator :: more) := by
          rw [← cut]
        _ = _ := by simp
    · rw [behind, behindLine, ended]
    · intro joined _
      rw [beq_iff_eq.mp joined]
      exact List.suffix_append _ _

/-- What the source has still to deliver follows the lines that were counted, but for an LF that
belongs to the last of them. -/
theorem Lines.Stands.rest {lines : Lines} (stands : lines.Stands bytes) :
    lines.number ≤ (splitLines bytes).length ∧
      ∃ ended rest, bytes = ended ++ rest ∧
        splitLines ended = (splitLines bytes).take lines.number ∧
        splitLines rest = (splitLines bytes).drop lines.number ∧
        (lines.source.readToEnd = (rest, none, []) ∨
          lines.source.readToEnd = (lf :: rest, none, []) ∧ [cr, lf] <:+ ended) := by
  obtain ⟨front, data, left⟩ := stands
  obtain ⟨ended, whole, first⟩ := exists_append_iterate_behindLine lines.number bytes
  refine ⟨left.counted, ended, _, whole, first, splitLines_iterate_behindLine _ bytes, ?_⟩
  rw [← left.behind] at whole ⊢
  by_cases torn : lines.afterCr = true ∧ data.head? = some lf
  · right
    obtain ⟨afterCr, head⟩ := torn
    obtain ⟨data, rfl⟩ := List.head?_eq_some_iff.mp head
    obtain ⟨before, ends⟩ := left.joined afterCr head
    have taken : dropLf lines.afterCr (lf :: data) = data := by simp [dropLf, afterCr]
    rw [taken] at whole ⊢
    have joined : front ++ [lf] = ended := by
      rw [left.whole, ← List.singleton_append, ← List.append_assoc] at whole
      exact List.append_cancel_right whole
    refine ⟨left.remaining, before, ?_⟩
    rw [← joined, ← ends, List.append_assoc, List.singleton_append]
  · left
    rw [dropLf, if_neg (by simpa using torn)]
    exact left.remaining

/-! ### A buffer without room -/

theorem Lines.scan_of_idle (afterCr : Bool) {source : Source} (idle : source.Delivers []) :
    scan afterCr source = (.ended, afterCr, []) := by
  generalize none : ([] : Bytes) = bytes at idle
  induction idle with
  | done => rfl
  | chunk nonempty _ _ => exact absurd (List.append_eq_nil_iff.mp none.symm).1 nonempty
  | interruption interrupted _ ih =>
    rw [scan, if_pos interrupted]
    exact ih none

theorem Lines.next_of_idle {lines : Lines} (idle : lines.number = 0 ∧ lines.source.Delivers []) :
    lines.next.2.number = 0 ∧ lines.next.2.source.Delivers [] := by
  rw [next, scan_of_idle lines.afterCr idle.2]
  exact ⟨idle.1, .done⟩

end Dump

namespace DumpReader

open Dump

/-! ### All calls read line by line -/

section Calls

variable {P : Lines → Prop} (step : ∀ {lines : Lines}, P lines → P lines.next.2) {r : DumpReader}

include step

theorem lines_readFields (line : Bytes) (holds : P r.lines) : P (r.readFields line).2.lines := by
  have next {r : DumpReader} {result : LineResult} {lines : Lines}
      (found : r.lines.next = (result, lines)) (holds : P r.lines) : P lines := by
    simpa only [found] using step holds
  fun_induction readFields r line with
  | case1 => exact holds
  | case2 r _ _ _ _ _ lines found => exact next found holds
  | case3 r _ _ _ _ lines found => exact next found holds
  | case4 r _ _ _ _ _ lines found => exact next found holds
  | case5 r _ _ _ _ _ lines found _ _ ih => exact ih (next found holds)
  | case6 r _ _ _ _ _ lines found => exact next found holds

theorem lines_readHeader (holds : P r.lines) : P r.readHeader.2.lines := by
  have next := step holds
  unfold readHeader
  split
  · rename_i found
    simpa only [found] using next
  · rename_i found
    simpa only [found] using next
  · rename_i line lines found
    rw [found] at next
    split
    · exact lines_readFields step line next
    · exact next

theorem lines_header (holds : P r.lines) : P r.header.2.lines := by
  unfold header
  split
  · exact lines_readHeader step holds
  · exact holds

theorem lines_nextLine (holds : P r.lines) : P r.nextLine.2.lines := by
  unfold nextLine
  split
  · exact holds
  · exact step holds

theorem lines_readRecord (holds : P r.lines) : P r.readRecord.2.2.lines := by
  fun_induction readRecord r with
  | case1 r after found => simpa only [found] using lines_nextLine step holds
  | case2 r error after found => simpa only [found] using lines_nextLine step holds
  | case3 r line after found blank ih =>
    exact ih (by simpa only [found] using lines_nextLine step holds)
  | case4 r line after found => simpa only [found] using lines_nextLine step holds

theorem lines_read (holds : P r.lines) : P r.read.2.2.lines := by
  have looked := lines_header step holds
  unfold DumpReader.read
  split
  · exact holds
  · exact lines_readRecord step holds
  · split
    · rename_i found
      simpa only [found] using looked
    · rename_i found
      rw [found] at looked
      exact lines_readRecord step looked

/-- What each line that is read keeps is kept by all calls. -/
theorem lines_answers (calls : List Call) (holds : P r.lines) : P (r.answers calls).2.lines := by
  induction calls generalizing r with
  | nil => exact holds
  | cons call calls ih =>
    apply ih
    cases call with
    | header => exact lines_header step holds
    | read => exact lines_read step holds

end Calls

/-- After any calls the lines counted are the first ones of the data, and draining the buffer and
the source gives what follows them and nothing else. Of the end of the last of them, the LF of a
CR LF may come first. -/
theorem rest_of_answers {source : Source} {bytes : Bytes} (delivers : source.Delivers bytes)
    (capacity : Nat) (grammar : Grammar) (options : ReaderOptions) (calls : List Call) :
    let last := ((ofSource (source.buffered capacity) grammar options).answers calls).2
    let drained := (last.lines.source ++ source.untaken capacity).readToEnd
    last.lineNumber ≤ (splitLines bytes).length ∧
      ∃ ended rest, bytes = ended ++ rest ∧
        splitLines ended = (splitLines bytes).take last.lineNumber ∧
        splitLines rest = (splitLines bytes).drop last.lineNumber ∧
        (drained = (rest, none, []) ∨
          drained = (lf :: rest, none, []) ∧ [cr, lf] <:+ ended) := by
  intro last drained
  by_cases narrow : capacity = 0
  · subst narrow
    -- no line is ever read, and all data is left behind the buffer
    obtain ⟨shown, behind⟩ := delivers.without_room
    have idle : last.lines.number = 0 ∧ last.lines.source.Delivers [] :=
      lines_answers (P := fun lines => lines.number = 0 ∧ lines.source.Delivers [])
        Lines.next_of_idle calls ⟨rfl, shown⟩
    have counted : last.lineNumber = 0 := idle.1
    have left : drained = (bytes, none, []) := by
      rw [show drained = _ from idle.2.readToEnd_append _, behind.readToEnd, List.nil_append]
    rw [counted]
    exact ⟨Nat.zero_le _, [], bytes, rfl, rfl, rfl, .inl left⟩
  · have room : 1 ≤ capacity := Nat.one_le_iff_ne_zero.mpr narrow
    have stands : last.lines.Stands bytes :=
      lines_answers Lines.Stands.next calls
        (Lines.stands_of_readToEnd (delivers.readToEnd_buffered room))
    have all : source.untaken capacity = [] := by rw [Source.untaken, if_neg narrow]
    have drained_eq : drained = last.lines.source.readToEnd := by
      simp only [drained, all, List.append_nil]
    rw [drained_eq]
    exact stands.rest

/-- The record is read from one delivery, and the LF that ends it comes with the next. -/
theorem rest_of_answers_of_torn_line_end :
    let torn : Source := [.chunk (Bytes.ofText "a|b\r"), .chunk (Bytes.ofText "\n\nc|d\r\n")]
    let bytes := Bytes.ofText "a|b\r\n\nc|d\r\n"
    let last := ((ofSource (torn.buffered 4) .generic {}).answers [.read]).2
    let drained := (last.lines.source ++ torn.untaken 4).readToEnd
    torn.Delivers bytes ∧ last.lineNumber = 1 ∧
      drained = (Bytes.ofText "\n\nc|d\r\n", none, []) ∧
      last.lineNumber ≤ (splitLines bytes).length ∧
      ∃ ended rest, bytes = ended ++ rest ∧
        splitLines ended = (splitLines bytes).take last.lineNumber ∧
        splitLines rest = (splitLines bytes).drop last.lineNumber ∧
        (drained = (rest, none, []) ∨
          drained = (lf :: rest, none, []) ∧ [cr, lf] <:+ ended) := by
  intro torn bytes last drained
  have delivers : torn.Delivers bytes := by
    have cut : bytes = Bytes.ofText "a|b\r" ++ (Bytes.ofText "\n\nc|d\r\n" ++ []) := by
      decide +kernel
    rw [cut]
    exact .chunk (by decide +kernel) (.chunk (by decide +kernel) .done)
  exact ⟨delivers, by decide +kernel, by decide +kernel,
    rest_of_answers delivers 4 .generic {} [.read]⟩

end DumpReader

end LinkArchive
