import LinkArchive.Proofs.Dump.Calls
import Mathlib.Data.List.Chain

/-!
# Line ends

The lines of a dump may end with LF, CR LF or CR, each line in its own way, and the last of them may
have no end. `splitLines_spell` finds the same lines in all that may be written for them, and no
calls tell a reader of one from a reader of another: `DumpReader.answers_of_spellings`.
-/

namespace LinkArchive

namespace Dump

inductive LineEnd where
  | lf
  | crLf
  | cr
  deriving DecidableEq, Repr

def LineEnd.bytes : LineEnd → Bytes
  | lf => [10]
  | crLf => [13, 10]
  | cr => [13]

/-- Lines with their ends, of which that of the last line is left out unless `ended`. -/
def spell (ended : Bool) : List (Bytes × LineEnd) → Bytes
  | [] => []
  | [(line, ending)] => line ++ if ended then ending.bytes else []
  | (line, ending) :: next :: rest => line ++ (ending.bytes ++ spell ended (next :: rest))

/-- A line may stand before another. An LF right after a CR is no line of its own. -/
def Apart (first second : Bytes × LineEnd) : Prop := first.2 = .cr → second ≠ ([], .lf)

instance : DecidableRel Apart :=
  fun first second => inferInstanceAs (Decidable (first.2 = .cr → second ≠ ([], .lf)))

/-- How lines are written. The last line may have no end, unless it is blank. -/
structure Spelling (lines : List Bytes) where
  ends : List LineEnd
  ended : Bool := true
  length_eq : ends.length = lines.length := by decide
  apart : (lines.zip ends).IsChain Apart := by decide
  shown : ended = false → lines.getLast? ≠ some [] := by decide

def Spelling.bytes {lines : List Bytes} (s : Spelling lines) : Bytes :=
  spell s.ended (lines.zip s.ends)

/-! ### The lines of a spelling -/

/-- What follows a line that ends with CR does not begin with an LF. -/
theorem head_spell_ne_lf {ended : Bool} {line : Bytes × LineEnd} {rest : List (Bytes × LineEnd)}
    (text : ∀ byte ∈ line.1, (!isTerminator byte) = true) (visible : line ≠ ([], .lf))
    (shown : ended = false → (line :: rest).getLast?.map Prod.fst ≠ some []) :
    (spell ended (line :: rest)).head? ≠ some lf := by
  obtain ⟨bytes, ending⟩ := line
  cases bytes with
  | cons first bytes =>
    have first_ne : first ≠ lf := by
      rintro rfl
      exact absurd (text lf List.mem_cons_self) (by decide)
    cases rest <;> simpa [spell] using first_ne
  | nil =>
    have ending_ne : ending.bytes.head? ≠ some lf := by
      cases ending with
      | lf => exact absurd rfl visible
      | crLf => decide
      | cr => decide
    cases rest with
    | cons next rest =>
      have first : (ending.bytes ++ spell ended (next :: rest)).head? = ending.bytes.head? := by
        cases ending <;> rfl
      rw [spell, List.nil_append, first]
      exact ending_ne
    | nil =>
      cases ended with
      | true => exact ending_ne
      | false => exact absurd rfl (shown rfl)

theorem splitLines_of_lineEnd {line rest : Bytes} {ending : LineEnd}
    (text : ∀ byte ∈ line, (!isTerminator byte) = true)
    (apart : ending = .cr → rest.head? ≠ some lf) :
    splitLines (line ++ (ending.bytes ++ rest)) = line :: splitLines rest := by
  cases ending with
  | lf =>
    have whole : dropLf ((10 : UInt8) == cr) rest = rest := dropLf_false rest
    exact (splitLines_of_terminator text rfl rest).trans (by rw [whole])
  | crLf => exact splitLines_of_terminator text rfl (lf :: rest)
  | cr =>
    have whole : dropLf ((13 : UInt8) == cr) rest = rest := by simp [dropLf, apart rfl]
    exact (splitLines_of_terminator text rfl rest).trans (by rw [whole])

theorem splitLines_of_last {line : Bytes} (text : ∀ byte ∈ line, (!isTerminator byte) = true)
    (nonempty : line ≠ []) : splitLines line = [line] := by
  have unended : line.dropWhile (!isTerminator ·) = [] := List.dropWhile_eq_nil_iff.mpr text
  simp [splitLines, cutLines_of_unended unended, nonempty]

/-- Whatever ends are written, the lines are found again. -/
theorem splitLines_spell {ended : Bool} {lines : List (Bytes × LineEnd)}
    (text : ∀ line ∈ lines, ∀ byte ∈ line.1, (!isTerminator byte) = true)
    (apart : lines.IsChain Apart)
    (shown : ended = false → lines.getLast?.map Prod.fst ≠ some []) :
    splitLines (spell ended lines) = lines.map Prod.fst := by
  induction lines with
  | nil => rfl
  | cons line rest ih =>
    obtain ⟨first, others⟩ := List.forall_mem_cons.mp text
    cases rest with
    | nil =>
      cases ended with
      | true =>
        have end_only : line.2 = .cr → ([] : Bytes).head? ≠ some lf := by simp
        have lines := splitLines_of_lineEnd first end_only
        rw [List.append_nil] at lines
        exact lines
      | false =>
        have nonempty : line.1 ≠ [] := by simpa using shown rfl
        rw [spell, if_neg Bool.false_ne_true, List.append_nil, splitLines_of_last first nonempty]
        rfl
    | cons next rest =>
      obtain ⟨before, later⟩ := List.isChain_cons_cons.mp apart
      have shown : ended = false → (next :: rest).getLast?.map Prod.fst ≠ some [] := by
        simpa using shown
      obtain ⟨second, -⟩ := List.forall_mem_cons.mp others
      have apart_next : line.2 = .cr → (spell ended (next :: rest)).head? ≠ some lf :=
        fun isCr => head_spell_ne_lf second (before isCr) shown
      rw [spell, splitLines_of_lineEnd first apart_next, ih others later shown]
      rfl

theorem Spelling.linesOf_bytes {lines : List Bytes}
    (text : ∀ line ∈ lines, ∀ byte ∈ line, isTerminator byte = false) (s : Spelling lines) :
    linesOf s.bytes = lines.modifyHead unmark := by
  have fst : (lines.zip s.ends).map Prod.fst = lines :=
    List.map_fst_zip (Nat.le_of_eq s.length_eq.symm)
  have zipped : ∀ line ∈ lines.zip s.ends, ∀ byte ∈ line.1, (!isTerminator byte) = true := by
    intro line member byte inside
    rw [text line.1 (List.of_mem_zip member).1 byte inside]
    rfl
  have shown : s.ended = false → (lines.zip s.ends).getLast?.map Prod.fst ≠ some [] := by
    rw [← List.getLast?_map, fst]
    exact s.shown
  rw [linesOf, Spelling.bytes, splitLines_spell zipped s.apart shown, fst]

end Dump

namespace DumpReader

open Dump

/-! ### Readers that cannot be told apart -/

variable {grammar : Grammar} {options : ReaderOptions} {fields : List MetaField} {used : Nat}
variable {ahead : List Bytes}

/-- Two readers that have looked for their headers and have the same still to come. -/
inductive Alike (grammar : Grammar) (options : ReaderOptions) : DumpReader → DumpReader → Prop where
  | streaming {r other : DumpReader} {fields : List MetaField} {used : Nat} {ahead : List Bytes}
      (first : r.Ahead grammar options fields used ahead none)
      (second : other.Ahead grammar options fields used ahead none) :
      Alike grammar options r other
  | exhausted {r other : DumpReader} (first : r.phase = .exhausted)
      (second : other.phase = .exhausted) (fields_eq : r.fields = other.fields)
      (number_eq : r.lineNumber = other.lineNumber) : Alike grammar options r other

theorem Alike.begun {r other : DumpReader} (h : Alike grammar options r other) :
    r.phase ≠ .start ∧ other.phase ≠ .start ∧ r.fields = other.fields := by
  cases h with
  | streaming first second =>
    exact ⟨by simp [first.streaming], by simp [second.streaming],
      first.fields_eq.trans second.fields_eq.symm⟩
  | exhausted first second fields_eq => exact ⟨by simp [first], by simp [second], fields_eq⟩

/-- The next record is the next of the lines ahead that is not passed over. -/
theorem readRecord_of_same {r other : DumpReader}
    (first : r.Ahead grammar options fields used ahead none)
    (second : other.Ahead grammar options fields used ahead none) :
    ∃ result warnings next after, r.readRecord = (result, warnings, next) ∧
      other.readRecord = (result, warnings, after) ∧ next.lineNumber = after.lineNumber ∧
      Alike grammar options next after := by
  induction ahead generalizing r other used with
  | nil =>
    obtain ⟨next, found, number⟩ := nextLine_of_ahead_nil first
    obtain ⟨after, found', number'⟩ := nextLine_of_ahead_nil second
    have kept := (keeps_nextLine r).1.fields_eq
    have kept' := (keeps_nextLine other).1.fields_eq
    rw [found] at kept
    rw [found'] at kept'
    have fields_eq : next.fields = after.fields := by
      rw [kept, kept', first.fields_eq, second.fields_eq]
    have number_eq : next.lineNumber = after.lineNumber := number.trans number'.symm
    exact ⟨_, _, _, _, readRecord_of_stop found, readRecord_of_stop found', number_eq,
      .exhausted rfl rfl fields_eq number_eq⟩
  | cons line ahead ih =>
    obtain ⟨next, found, number, later⟩ := nextLine_of_ahead_cons first
    obtain ⟨after, found', number', later'⟩ := nextLine_of_ahead_cons second
    cases skipped : line.isEmpty && options.skipBlankLines with
    | true =>
      rw [readRecord_of_skipped found (by rw [first.options_eq]; exact skipped),
        readRecord_of_skipped found' (by rw [second.options_eq]; exact skipped)]
      exact ih later later'
    | false =>
      rw [readRecord_of_line found (by rw [first.options_eq]; exact skipped),
        readRecord_of_line found' (by rw [second.options_eq]; exact skipped), first.grammar_eq,
        first.options_eq, second.grammar_eq, second.options_eq, number, number']
      exact ⟨_, _, _, _, rfl, rfl, number.trans number'.symm, .streaming later later'⟩

theorem ask_of_alike {r other : DumpReader} (h : Alike grammar options r other) (call : Call) :
    (r.ask call).1 = (other.ask call).1 ∧
      Alike grammar options (r.ask call).2 (other.ask call).2 := by
  obtain ⟨begun, begun', fields_eq⟩ := h.begun
  cases call with
  | header =>
    rw [ask, ask, header_of_begun begun, header_of_begun begun', fields_eq]
    exact ⟨rfl, h⟩
  | read =>
    cases h with
    | streaming first second =>
      obtain ⟨result, warnings, next, after, read, read', number_eq, later⟩ :=
        readRecord_of_same first second
      simp only [ask, read_of_streaming first.streaming, read_of_streaming second.streaming, read,
        read', number_eq]
      exact ⟨trivial, later⟩
    | exhausted first second _ number_eq =>
      rw [ask, ask, DumpReader.read, DumpReader.read, first, second]
      simp only [number_eq]
      exact ⟨trivial, .exhausted first second fields_eq number_eq⟩

theorem answers_of_alike {r other : DumpReader} (h : Alike grammar options r other)
    (calls : List Call) : (r.answers calls).1 = (other.answers calls).1 := by
  induction calls generalizing r other with
  | nil => rfl
  | cons call calls ih =>
    obtain ⟨answer_eq, later⟩ := ask_of_alike h call
    simp only [answers, answer_eq, ih later]

/-- Readers at the start of the same lines answer alike, whatever they are asked for. -/
theorem answers_of_same_lines {source other : Source} {lines : List Bytes}
    (first : Lines.Ahead { source } lines none)
    (second : Lines.Ahead { source := other } lines none) (grammar : Grammar)
    (options : ReaderOptions) (calls : List Call) :
    ((ofSource source grammar options).answers calls).1 =
      ((ofSource other grammar options).answers calls).1 := by
  obtain ⟨next, found, number, -, -, reached⟩ := header_of_ahead first grammar options
  obtain ⟨after, found', number', -, -, reached'⟩ := header_of_ahead second grammar options
  have fine := headerEnd_ne_io lines
  have later : Alike grammar options next after := .streaming (reached fine) (reached' fine)
  cases result : (headerEnd none lines).result with
  | ok _ =>
    rw [result] at found found'
    rw [answers_of_header rfl found, answers_of_header rfl found']
    exact answers_of_alike later calls
  | error error =>
    rw [result] at found found'
    cases calls with
    | nil => rfl
    | cons call calls =>
      have tail := answers_of_alike later calls
      cases call with
      | header => simp only [answers, ask, found, found', tail, Except.map]
      | read =>
        have read : (ofSource source grammar options).read = (.error error, [], next) := by
          simp only [DumpReader.read, ofSource] at found ⊢
          simp only [found, Except.map]
        have read' : (ofSource other grammar options).read = (.error error, [], after) := by
          simp only [DumpReader.read, ofSource] at found' ⊢
          simp only [found', Except.map]
        simp only [answers, ask, read, read', tail, number, number']

/-- However the same lines are ended and delivered, a reader gives the same header, the same records
with the same warnings and line numbers, and the same answers in whatever order it is asked. -/
theorem answers_of_spellings {lines : List Bytes}
    (text : ∀ line ∈ lines, ∀ byte ∈ line, isTerminator byte = false)
    (first second : Spelling lines) {source other : Source} {capacity room : Nat}
    (delivers : source.Delivers first.bytes) (delivers' : other.Delivers second.bytes)
    (spacious : 1 ≤ capacity) (spacious' : 1 ≤ room) (grammar : Grammar)
    (options : ReaderOptions) :
    let r := ofSource (source.buffered capacity) grammar options
    let s := ofSource (other.buffered room) grammar options
    r.reading = s.reading ∧ ∀ calls, (r.answers calls).1 = (s.answers calls).1 := by
  intro r s
  have data := delivers.readToEnd_buffered spacious
  have data' := delivers'.readToEnd_buffered spacious'
  have same : linesOf first.bytes = linesOf second.bytes := by
    rw [first.linesOf_bytes text, second.linesOf_bytes text]
  constructor
  · rw [reading_of_readToEnd data, reading_of_readToEnd data']
    simp only [Reading.ofBytes, same]
  · have coming := Lines.ahead_of_readToEnd data
    rw [same] at coming
    exact answers_of_same_lines coming (Lines.ahead_of_readToEnd data') grammar options

/-- CR LF and LF, torn apart by the deliveries, against CR alone and no end of the last line. -/
theorem answers_of_torn_line_ends :
    let lines : List Bytes := [[35, 65, 58, 49], [], [120, 124, 121], [], [122]]
    let first : Spelling lines := { ends := [.crLf, .crLf, .cr, .crLf, .lf] }
    let second : Spelling lines := { ends := [.lf, .cr, .cr, .cr, .lf], ended := false }
    let source : Source := [.chunk [35, 65, 58, 49, 13], .chunk [10, 13],
      .failure (.fault { kind := .interrupted }), .chunk [10, 120, 124, 121, 13, 13],
      .chunk [10, 122, 10]]
    let other : Source := [.chunk [35, 65, 58, 49, 10, 13, 120, 124], .chunk [121, 13, 13, 122]]
    let r := ofSource (source.buffered 8192) (.fixed (some 1)) {}
    let s := ofSource (other.buffered 3) (.fixed (some 1)) {}
    (∀ line ∈ lines, ∀ byte ∈ line, isTerminator byte = false) ∧
      source.Delivers first.bytes ∧ other.Delivers second.bytes ∧ 1 ≤ 8192 ∧ 1 ≤ 3 ∧
      r.reading = s.reading ∧ ∀ calls, (r.answers calls).1 = (s.answers calls).1 := by
  intro lines first second source other r s
  have text : ∀ line ∈ lines, ∀ byte ∈ line, isTerminator byte = false := by
    simp [lines, isTerminator, lf, cr]
  have delivers : source.Delivers first.bytes :=
    .chunk (by decide) (.chunk (by decide) (.interruption rfl (.chunk (by decide)
      (.chunk (by decide) .done))))
  have delivers' : other.Delivers second.bytes :=
    .chunk (by decide) (.chunk (by decide) .done)
  exact ⟨text, delivers, delivers', by decide, by decide,
    answers_of_spellings text first second delivers delivers' (by decide) (by decide) _ _⟩

end DumpReader

end LinkArchive
