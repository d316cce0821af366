import LinkArchive.Proofs.Dump.Calls
import LinkArchive.Proofs.Dump.CutOff
import Mathlib.Data.List.DropRight

/-!
# Sources that fail

A reader whose source fails tells what it tells of the lines before the failure that have an end,
and then of the failure instead of the end: `DumpReader.answers_of_failure`.
-/

namespace LinkArchive

namespace Dump

/-! ### Bytes up to the last end of a line -/

/-- The bytes without what follows the last end of a line. -/
def endedPart (bytes : Bytes) : Bytes := bytes.rdropWhile (!isTerminator ·)

example : endedPart [97, 13, 10, 98] = [97, 13, 10] := by decide

theorem endedPart_prefix (bytes : Bytes) : endedPart bytes <+: bytes :=
  List.rdropWhile_prefix _ _

/-- A byte is left where something after it is, or else if it ends a line itself. -/
theorem endedPart_cons (byte : UInt8) (rest : Bytes) :
    endedPart (byte :: rest) =
      if endedPart rest = [] then if isTerminator byte then [byte] else []
      else byte :: endedPart rest := by
  unfold endedPart List.rdropWhile
  rw [List.reverse_cons, List.dropWhile_append]
  cases behind : rest.reverse.dropWhile (!isTerminator ·) with
  | nil =>
    cases ends : isTerminator byte <;> simp [ends]
  | cons last others => simp

theorem endedPart_cons_of_isTerminator {byte : UInt8} (ends : isTerminator byte = true)
    (rest : Bytes) : endedPart (byte :: rest) = byte :: endedPart rest := by
  rw [endedPart_cons, ends]
  split
  · rename_i none
    rw [none]
    rfl
  · rfl

theorem eq_nil_of_cutLines {bytes : Bytes} (none : cutLines bytes = ([], [])) : bytes = [] := by
  fun_induction cutLines bytes with
  | case1 => rfl
  | _ => cases none

/-- The lines with an end are those of the bytes up to the last end. -/
theorem cutLines_endedPart (bytes : Bytes) :
    cutLines (endedPart bytes) = ((cutLines bytes).1, []) := by
  fun_induction cutLines bytes with
  | case1 => rfl
  | case2 rest ih =>
    rw [endedPart_cons_of_isTerminator rfl, endedPart_cons_of_isTerminator rfl, cutLines, ih]
  | case3 byte rest apart ends ih =>
    rw [endedPart_cons_of_isTerminator ends, cutLines, if_pos ends, ih]
    intro more isCr isLf
    -- a prefix of the rest starts with an LF only if the rest does
    obtain ⟨others, whole⟩ := endedPart_prefix rest
    rw [isLf] at whole
    exact apart _ isCr whole.symm
  | case4 byte rest _ other tail cut ih =>
    have none : endedPart rest = [] := by
      rw [cut] at ih
      exact eq_nil_of_cutLines ih
    rw [endedPart_cons, if_pos none, if_neg other]
    rfl
  | case5 byte rest _ other line lines tail cut ih =>
    have some : endedPart rest ≠ [] := by
      intro none
      rw [none, cut] at ih
      cases ih
    rw [endedPart_cons, if_neg some, cutLines, if_neg other, ih, cut]
    intro _ isCr _
    exact other (isCr ▸ rfl)

/-- Without what follows the last end, all lines have an end. -/
theorem linesOf_endedPart (bytes : Bytes) :
    linesOf (endedPart bytes) = Lines.unmarked 0 (cutLines bytes).1 := by
  rw [linesOf, ← funext dropMark_eq_unmark, splitLines, cutLines_endedPart]
  rfl

theorem length_linesOf_endedPart (bytes : Bytes) :
    (linesOf (endedPart bytes)).length = lineEnds bytes := by
  rw [linesOf_endedPart, Lines.unmarked, if_pos rfl, List.length_modifyHead, lineEnds]

/-- A source that fails behind some bytes has the lines ahead that have an end. -/
theorem Lines.ahead_of_failure {source rest : Source} {bytes : Bytes} {error : ReadError}
    (data : source.readToEnd = (bytes, some error, rest)) :
    Lines.Ahead { source } (linesOf (endedPart bytes)) (some error) :=
  ⟨bytes, rest, data, nofun, by rw [dropLf_false, linesOf_endedPart]; rfl⟩

end Dump

namespace DumpReader

open Dump

/-! ### Headers before a failure -/

/-- A header that ends before the failure of its source ends there without that failure too. -/
theorem headerEnd_of_failure {error : ReadError} {lines : List Bytes}
    (fine : ∀ failure, (headerEnd (some error) lines).result ≠ .error (.io failure)) :
    headerEnd none lines = headerEnd (some error) lines := by
  rcases headerEnd_of_cut error lines [] with ⟨failed, -⟩ | same
  · exact absurd failed (fine error)
  · simpa only [List.append_nil] using same

/-- A header that cannot be read meets the failure of its source. -/
theorem failure_of_headerEnd {failure : Option ReadError} {lines : List Bytes} {error : ReadError}
    (met : (headerEnd failure lines).result = .error (.io error)) : failure = some error := by
  cases failure with
  | none => exact absurd met (headerEnd_ne_io lines error)
  | some other =>
    rcases headerEnd_of_cut other lines [] with ⟨failed, -⟩ | same
    · cases failed.symm.trans met
      rfl
    · have whole : (headerEnd none (lines ++ [])).result = .error (.io error) := by
        rw [same]
        exact met
      exact absurd whole (headerEnd_ne_io _ error)

/-! ### Reads up to the end -/

/-- What a read answers that comes to an item. -/
def Item.answer (item : Item) : Answer := .record (item.result.map some) item.warnings item.number

theorem Step.ended_or_item {r after : DumpReader} {result : Except DumpError (Option LinkRecord)}
    {warnings : List Warning} (step : r.Step (result, warnings, after)) :
    result = .ok none ∧ warnings = [] ∨
      ∃ item : Except DumpError LinkRecord, result = item.map some := by
  cases step with
  | ended _ _ => exact .inl ⟨rfl, rfl⟩
  | failed error _ _ => exact .inr ⟨.error (.io error), rfl⟩
  | line line _ => exact .inr ⟨_, rfl⟩

/-- A read tells of the first item, if there is one. -/
theorem ask_read_of_begun {r : DumpReader} (begun : r.phase ≠ .start) :
    (∃ after : DumpReader, r.ask .read = (.record (.ok none) [] after.lineNumber, after) ∧
      r.readAll = ([], after)) ∨
    ∃ (item : Item) (after : DumpReader), r.ask .read = (item.answer, after) ∧
      r.readAll = (item :: after.readAll.1, after.readAll.2) ∧ after.phase ≠ .start := by
  have step := step_read begun
  rcases read : r.read with ⟨result, warnings, after⟩
  rw [read] at step
  have asked : r.ask .read = (.record result warnings after.lineNumber, after) := by
    rw [ask, read]
  rcases step.ended_or_item with ⟨rfl, rfl⟩ | ⟨item, rfl⟩
  · exact .inl ⟨after, asked, readAll_of_ended read⟩
  · exact .inr ⟨⟨after.lineNumber, item, warnings⟩, after, asked, readAll_of_result item read,
      step.begun begun⟩

/-- Asked for one record after the other, a reader tells of all of its items and then of the end. -/
theorem answers_of_readAll {r last : DumpReader} {items : List Item} (begun : r.phase ≠ .start)
    (all : r.readAll = (items, last)) :
    (r.answers (List.replicate (items.length + 1) .read)).1 =
      items.map Item.answer ++ [.record (.ok none) [] last.lineNumber] := by
  induction items generalizing r with
  | nil =>
    rcases ask_read_of_begun begun with ⟨after, asked, none⟩ | ⟨item, after, -, more, -⟩
    · cases none.symm.trans all
      simp only [List.length_nil, Nat.zero_add, List.replicate_one, answers, asked]
      rfl
    · cases more.symm.trans all
  | cons item items ih =>
    rcases ask_read_of_begun begun with ⟨after, -, none⟩ | ⟨first, after, asked, more, later⟩
    · cases none.symm.trans all
    · obtain ⟨same, rfl⟩ := Prod.mk.inj (more.symm.trans all)
      obtain ⟨rfl, others⟩ := List.cons.inj same
      rw [List.length_cons, List.replicate_succ]
      simp only [answers, asked, ih later (Prod.ext others rfl)]
      rfl

/-- A reader asked for its header first and then for one record after the other. -/
theorem answers_of_header_readAll {r after last : DumpReader}
    {header : Except DumpError (List MetaField)} {items : List Item}
    (found : r.header = (header, after)) (all : after.readAll = (items, last)) :
    (r.answers (.header :: List.replicate (items.length + 1) .read)).1 =
      .fields header :: items.map Item.answer ++ [.record (.ok none) [] last.lineNumber] := by
  have begun := begun_header r
  rw [found] at begun
  simp only [answers, ask, found, answers_of_readAll begun all]
  rfl

/-! ### Reads up to a failure -/

/-- What a source that fails leaves of a dump, unless it fails before the end of the header. -/
theorem readAll_of_failure {source rest : Source} {bytes : Bytes} {error : ReadError}
    (data : source.readToEnd = (bytes, some error, rest)) (grammar : Grammar)
    (options : ReaderOptions)
    (fine : ∀ failure, (ofSource source grammar options).header.1 ≠ .error (.io failure)) :
    let reading := Reading.ofBytes grammar options (endedPart bytes)
    ∃ after last, (ofSource source grammar options).header = (reading.header, after) ∧
      after.readAll = (reading.items ++ [⟨lineEnds bytes, .error (.io error), []⟩], last) ∧
      last.lineNumber = lineEnds bytes := by
  intro reading
  obtain ⟨result, used, -, left⟩ := headerEnd_eq (linesOf (endedPart bytes))
  obtain ⟨after, found, -, -, -, reached⟩ :=
    header_of_ahead (Lines.ahead_of_failure data) grammar options
  have fine : ∀ failure, (headerEnd (some error) (linesOf (endedPart bytes))).result ≠
      .error (.io failure) := by
    intro failure failed
    apply fine failure
    rw [found, failed]
    rfl
  obtain ⟨items, last⟩ := readAll_of_ahead (reached fine)
  rw [← headerEnd_of_failure fine] at found items last
  have bound := bodyStart_le_length 1 (linesOf (endedPart bytes))
  rw [used, left, List.length_drop, Nat.add_sub_of_le bound, length_linesOf_endedPart] at items last
  rw [result] at found
  rw [← bodyOf_eq_zipIdx] at items
  exact ⟨after, after.readAll.2, found, Prod.ext items rfl, last⟩

/-- If the header ends before the source fails, a reader tells what it tells of the same bytes cut
off behind the last end of a line, and then of the failure instead of the end. -/
theorem answers_of_failure {before rest whole : Source} {bytes : Bytes} {error : ReadError}
    {capacity size : Nat} (delivers : before.Delivers bytes) (final : error.isInterrupted = false)
    (room : 1 ≤ capacity) (ended : whole.Delivers (endedPart bytes)) (space : 1 ≤ size)
    (grammar : Grammar) (options : ReaderOptions) :
    let failing := ofSource ((before ++ .failure error :: rest).buffered capacity) grammar options
    let cut := ofSource (whole.buffered size) grammar options
    let reading := Reading.ofBytes grammar options (endedPart bytes)
    let told := .fields reading.header :: reading.items.map Item.answer
    let reads (count : Nat) : List Call := .header :: List.replicate count .read
    (∀ failure, failing.header.1 ≠ .error (.io failure)) →
      (cut.answers (reads (reading.items.length + 1))).1 =
          told ++ [.record (.ok none) [] (lineEnds bytes)] ∧
        (failing.answers (reads (reading.items.length + 2))).1 =
          told ++ [.record (.error (.io error)) [] (lineEnds bytes),
            .record (.ok none) [] (lineEnds bytes)] := by
  intro failing cut reading told reads fine
  constructor
  · have same := reading_of_readToEnd (ended.readToEnd_buffered space) grammar options
    rcases found : cut.header with ⟨header, after⟩
    rcases all : after.readAll with ⟨items, last⟩
    have parts : DumpReader.reading cut =
        ⟨header, after.lineNumber, items, last.lineNumber⟩ := by
      simp only [DumpReader.reading, found, all]
    have whole_eq := parts.symm.trans same
    have lastLine : last.lineNumber = lineEnds bytes :=
      (congrArg Reading.lastLine whole_eq).trans (length_linesOf_endedPart bytes)
    rw [← lastLine]
    simp only [told, reads, reading, ← whole_eq]
    exact answers_of_header_readAll found all
  · have data : ((before ++ .failure error :: rest).buffered capacity).readToEnd =
        (bytes, some error, rest.buffered capacity) := by
      rw [Source.readToEnd_buffered (Nat.ne_of_gt room), delivers.readToEnd_append,
        Source.readToEnd, if_neg (by simp [final]), List.append_nil]
    obtain ⟨after, last, found, all, lastLine⟩ := readAll_of_failure data grammar options fine
    have asked := answers_of_header_readAll found all
    rw [lastLine, List.map_append, ← List.cons_append, List.append_assoc,
      List.length_append] at asked
    exact asked

/-- The source fails within a line, and goes on with the rest of it. -/
theorem answers_of_failure_within_line :
    let first := Bytes.ofText "#A: 1\n\nab|x\r"
    let second := Bytes.ofText "\nno bar\nc|"
    let before : Source := [.chunk first, .failure (.fault { kind := .interrupted }), .chunk second]
    let error : ReadError := .fault { kind := .other, text := some "boom" }
    let kept := Bytes.ofText "#A: 1\n\nab|x\r\nno bar\n"
    let whole : Source := [.chunk kept]
    let torn : Source := before ++ .failure error :: [.chunk (Bytes.ofText "y\n")]
    let failing := ofSource (torn.buffered 3) (.fixed (some 2)) { requireSeparator := true }
    let cut := ofSource (whole.buffered 5) (.fixed (some 2)) { requireSeparator := true }
    let told : List Answer := [.fields (.ok [⟨"A", "1"⟩]),
      .record (.ok (some (.fixed "ab" "x"))) [] 3,
      .record (.error (.missingSeparator 4 "no bar")) [] 4]
    before.Delivers (first ++ second) ∧ error.isInterrupted = false ∧ 1 ≤ 3 ∧
      endedPart (first ++ second) = kept ∧ whole.Delivers kept ∧ 1 ≤ 5 ∧
      (∀ failure, failing.header.1 ≠ .error (.io failure)) ∧
      (cut.answers [.header, .read, .read, .read]).1 = told ++ [.record (.ok none) [] 4] ∧
      (failing.answers [.header, .read, .read, .read, .read]).1 =
        told ++ [.record (.error (.io error)) [] 4, .record (.ok none) [] 4] := by
  intro first second before error kept whole torn failing cut told
  have delivers : before.Delivers (first ++ second) := by
    rw [← List.append_nil second]
    exact .chunk (by decide +kernel) (.interruption rfl (.chunk (by decide +kernel) .done))
  have kept_eq : endedPart (first ++ second) = kept := by decide +kernel
  have ended : whole.Delivers kept := by
    rw [← List.append_nil kept]
    exact .chunk (by decide +kernel) .done
  have header : failing.header.1 = .ok [⟨"A", "1"⟩] := by decide +kernel
  have fine : ∀ failure, failing.header.1 ≠ .error (.io failure) := by
    rw [header]
    nofun
  let reading := Reading.ofBytes (.fixed (some 2)) { requireSeparator := true } kept
  have told_eq : .fields reading.header :: reading.items.map Item.answer = told := by
    decide +kernel
  have count : reading.items.length = 2 := by decide +kernel
  have number : lineEnds (first ++ second) = 4 := by decide +kernel
  have answered := answers_of_failure delivers rfl (by decide : 1 ≤ 3) (kept_eq ▸ ended)
    (by decide : 1 ≤ 5) (.fixed (some 2)) { requireSeparator := true } fine
  rw [kept_eq, number] at answered
  simp only [reading] at told_eq count
  simp only [told_eq, count] at answered
  exact ⟨delivers, rfl, by decide, kept_eq, ended, by decide, fine, answered⟩

end DumpReader

end LinkArchive
