import LinkArchive.Proofs.Dump.Ahead

/-!
# Reading a whole dump

`Reading.ofBytes` reads a dump with all of its lines in hand: the header is the run of leading lines
that start with `#`, and every other line gives a record or an error of its own. A reader gives the
same, however the bytes are delivered to it.
-/

namespace LinkArchive

namespace Dump

/-! ### Reading with all lines in hand -/

def unmark : Bytes → Bytes
  | 0xef :: 0xbb :: 0xbf :: rest => rest
  | line => line

/-- The lines of a dump, the first without a byte-order mark. -/
def linesOf (bytes : Bytes) : List Bytes := (splitLines bytes).modifyHead unmark

example : linesOf [0xef, 0xbb, 0xbf, 97, 13, 10, 13, 98] = [[97], [], [98]] := by decide

/-- The header lines with their numbers, of which the first is `first`. -/
def metaLines (first : Nat) (lines : List Bytes) : List (Bytes × Nat) :=
  (lines.takeWhile isMetaLine).zipIdx first

/-- The fields of some header lines, or what is wrong with the first of them that is no field. -/
def fieldsOfLines (lines : List (Bytes × Nat)) : Except DumpError (List MetaField) :=
  lines.mapM fun line => fieldOf line.2 line.1

/-- How many of some header lines there are before the first that is no field. -/
def goodFields (lines : List (Bytes × Nat)) : Nat :=
  (lines.takeWhile fun line => (fieldOf line.2 line.1).isOk).length

/-- How many lines come before the body: those up to the first header line that is no field, or else
all header lines and one blank line after them. -/
def bodyStart (first : Nat) (lines : List Bytes) : Nat :=
  let run := metaLines first lines
  if goodFields run < run.length then goodFields run + 1
  else if 0 < run.length ∧ lines[run.length]? = some [] then run.length + 1
  else run.length

/-- How many lines are read to know the header: the line that tells its end is one of them. -/
def headerStop (first : Nat) (lines : List Bytes) : Nat :=
  let run := metaLines first lines
  if goodFields run < run.length then goodFields run + 1 else min (run.length + 1) lines.length

def bodyOf (lines : List Bytes) : List (Bytes × Nat) := (lines.zipIdx 1).drop (bodyStart 1 lines)

structure Reading where
  header : Except DumpError (List MetaField)
  /-- Number of the last line read for the header. -/
  headerLine : Nat
  /-- The records and bad lines. -/
  items : List DumpReader.Item
  /-- Number of the last line. -/
  lastLine : Nat

def Reading.ofBytes (grammar : Grammar) (options : ReaderOptions) (bytes : Bytes) : Reading :=
  let lines := linesOf bytes
  { header := fieldsOfLines (metaLines 1 lines)
    headerLine := headerStop 1 lines
    items := DumpReader.itemsOf grammar options (bodyOf lines)
    lastLine := lines.length }

theorem dropMark_eq_unmark (line : Bytes) : Lines.dropMark line = unmark line := by
  unfold Lines.dropMark unmark
  split
  · rename_i marked
    obtain ⟨rest, rfl⟩ := List.isPrefixOf_iff_prefix.mp marked
    rfl
  · rename_i plain
    split
    · exact absurd rfl plain
    · rfl

theorem Lines.ahead_of_readToEnd {source : Source} {bytes : Bytes}
    (data : source.readToEnd = (bytes, none, [])) :
    Lines.Ahead { source } (linesOf bytes) none := by
  refine ⟨bytes, [], data, fun _ => rfl, ?_⟩
  rw [dropLf_false, linesOf, ← funext dropMark_eq_unmark]
  rfl

/-! ### The header with all lines in hand -/

theorem metaLines_cons {line : Bytes} (first : Nat) (lines : List Bytes)
    (isMeta : isMetaLine line = true) :
    metaLines first (line :: lines) = (line, first) :: metaLines (first + 1) lines := by
  simp [metaLines, isMeta]

theorem metaLines_of_other {line : Bytes} (first : Nat) (lines : List Bytes)
    (other : isMetaLine line = false) : metaLines first (line :: lines) = [] := by
  simp [metaLines, other]

theorem fieldsOfLines_of_error {line : Bytes} {number : Nat} {error : DumpError}
    (run : List (Bytes × Nat)) (malformed : fieldOf number line = .error error) :
    fieldsOfLines ((line, number) :: run) = .error error := by
  simp only [fieldsOfLines, List.mapM_cons, malformed]
  rfl

theorem fieldsOfLines_of_ok {line : Bytes} {number : Nat} {field : MetaField}
    (run : List (Bytes × Nat)) (parsed : fieldOf number line = .ok field) :
    fieldsOfLines ((line, number) :: run) = (fieldsOfLines run).map (field :: ·) := by
  simp only [fieldsOfLines, List.mapM_cons, parsed]
  rfl

theorem goodFields_of_error {line : Bytes} {number : Nat} {error : DumpError}
    (run : List (Bytes × Nat)) (malformed : fieldOf number line = .error error) :
    goodFields ((line, number) :: run) = 0 := by
  simp [goodFields, malformed, Except.isOk, Except.toBool]

theorem goodFields_of_ok {line : Bytes} {number : Nat} {field : MetaField}
    (run : List (Bytes × Nat)) (parsed : fieldOf number line = .ok field) :
    goodFields ((line, number) :: run) = goodFields run + 1 := by
  simp [goodFields, parsed, Except.isOk, Except.toBool]

section Header

variable {line next : Bytes} {first : Nat} {field : MetaField} (rest : List Bytes)

theorem bodyStart_of_other (first : Nat) (lines : List Bytes)
    (other : lines.head?.any isMetaLine = false) :
    bodyStart first lines = 0 ∧ headerStop first lines = min 1 lines.length ∧
      metaLines first lines = [] := by
  have run : metaLines first lines = [] := by
    cases lines with
    | nil => rfl
    | cons line rest => exact metaLines_of_other first rest other
  simp [bodyStart, headerStop, run]

theorem bodyStart_of_error {error : DumpError} (isMeta : isMetaLine line = true)
    (malformed : fieldOf first line = .error error) :
    bodyStart first (line :: rest) = 1 ∧ headerStop first (line :: rest) = 1 := by
  simp [bodyStart, headerStop, metaLines_cons first rest isMeta, goodFields_of_error _ malformed]

/-- The last header line is followed by a blank line, by the body, or by nothing. -/
theorem bodyStart_of_last (isMeta : isMetaLine line = true)
    (parsed : fieldOf first line = .ok field) (last : rest.head?.any isMetaLine = false) :
    bodyStart first (line :: rest) = (if rest.head? = some [] then 2 else 1) ∧
      headerStop first (line :: rest) = min 2 (rest.length + 1) := by
  have run : metaLines first (line :: rest) = [(line, first)] := by
    rw [metaLines_cons first rest isMeta, (bodyStart_of_other (first + 1) rest last).2.2]
  simp [bodyStart, headerStop, run, goodFields_of_ok _ parsed, List.head?_eq_getElem?]

theorem bodyStart_of_more (isMeta : isMetaLine line = true)
    (parsed : fieldOf first line = .ok field) (more : isMetaLine next = true) :
    bodyStart first (line :: next :: rest) = bodyStart (first + 1) (next :: rest) + 1 ∧
      headerStop first (line :: next :: rest) = headerStop (first + 1) (next :: rest) + 1 := by
  rw [bodyStart, headerStop, bodyStart, headerStop, metaLines_cons first _ isMeta,
    metaLines_cons (first + 1) rest more, goodFields_of_ok _ parsed]
  simp only [List.length_cons, Nat.add_lt_add_iff_right]
  split
  · exact ⟨rfl, rfl⟩
  · simp only [List.getElem?_cons_succ]
    constructor
    · split <;> simp_all
    · omega

end Header

open DumpReader in
theorem fieldsFrom_eq (fields : List MetaField) (before : Nat) {line : Bytes} (ahead : List Bytes)
    (isMeta : isMetaLine line = true) :
    let reached := fieldsFrom none fields (before + 1) line ahead
    let start := bodyStart (before + 1) (line :: ahead)
    (reached.result.map fun _ => reached.fields) =
        (fieldsOfLines (metaLines (before + 1) (line :: ahead))).map (fields ++ ·) ∧
      reached.used = before + start ∧
      reached.number = before + headerStop (before + 1) (line :: ahead) ∧
      reached.ahead = (line :: ahead).drop start := by
  dsimp only
  induction ahead generalizing fields before line with
  | nil =>
    cases parsed : fieldOf (before + 1) line with
    | error error =>
      obtain ⟨start, stop⟩ := bodyStart_of_error [] isMeta parsed
      rw [start, stop, metaLines_cons _ _ isMeta, fieldsOfLines_of_error _ parsed,
        fieldsFrom_of_malformed parsed]
      exact ⟨rfl, rfl, rfl, rfl⟩
    | ok field =>
      obtain ⟨start, stop⟩ := bodyStart_of_last [] isMeta parsed rfl
      rw [start, stop, metaLines_cons _ _ isMeta, fieldsOfLines_of_ok _ parsed, fieldsFrom, parsed]
      exact ⟨rfl, rfl, rfl, rfl⟩
  | cons next rest ih =>
    cases parsed : fieldOf (before + 1) line with
    | error error =>
      obtain ⟨start, stop⟩ := bodyStart_of_error (next :: rest) isMeta parsed
      rw [start, stop, metaLines_cons _ _ isMeta, fieldsOfLines_of_error _ parsed,
        fieldsFrom_of_malformed parsed]
      exact ⟨rfl, rfl, rfl, rfl⟩
    | ok field =>
      rw [metaLines_cons _ _ isMeta, fieldsOfLines_of_ok _ parsed, fieldsFrom, parsed]
      dsimp only
      cases more : isMetaLine next with
      | true =>
        have text : next.isEmpty = false := by cases next <;> simp_all [isMetaLine]
        obtain ⟨start, stop⟩ := bodyStart_of_more rest isMeta parsed more
        obtain ⟨result, used, number, left⟩ := ih (fields ++ [field]) (before + 1) more
        rw [text, if_neg Bool.false_ne_true, if_pos rfl, start, stop, result, used, number, left]
        refine ⟨?_, by omega, by omega, rfl⟩
        cases fieldsOfLines (metaLines (before + 1 + 1) (next :: rest)) <;> simp [Except.map]
      | false =>
        obtain ⟨start, stop⟩ := bodyStart_of_last (next :: rest) isMeta parsed more
        rw [start, stop, metaLines_of_other _ rest more]
        cases next <;> simp [fieldsOfLines, Except.map, pure, Except.pure]

/-- The header of a reader that has all lines in hand. -/
theorem headerEnd_eq (lines : List Bytes) :
    let reached := DumpReader.headerEnd none lines
    (reached.result.map fun _ => reached.fields) = fieldsOfLines (metaLines 1 lines) ∧
      reached.used = bodyStart 1 lines ∧ reached.number = headerStop 1 lines ∧
      reached.ahead = lines.drop (bodyStart 1 lines) := by
  dsimp only
  cases lines with
  | nil => exact ⟨rfl, rfl, rfl, rfl⟩
  | cons line ahead =>
    cases isMeta : isMetaLine line with
    | true =>
      obtain ⟨result, used, number, left⟩ := fieldsFrom_eq [] 0 ahead isMeta
      simp only [DumpReader.headerEnd, isMeta, if_true]
      refine ⟨result.trans ?_, used.trans (Nat.zero_add _), number.trans (Nat.zero_add _), left⟩
      cases fieldsOfLines (metaLines 1 (line :: ahead)) <;> simp [Except.map]
    | false =>
      obtain ⟨start, stop, run⟩ := bodyStart_of_other 1 (line :: ahead) isMeta
      simp only [DumpReader.headerEnd, isMeta, start, stop, run]
      simp [fieldsOfLines, Except.map, pure, Except.pure]

theorem fieldOf_ne_io (number : Nat) (line : Bytes) (error : ReadError) :
    fieldOf number line ≠ .error (.io error) := by
  unfold fieldOf
  split
  · simp
  · split <;> simp

theorem fieldsOfLines_ne_io (lines : List (Bytes × Nat)) (error : ReadError) :
    fieldsOfLines lines ≠ .error (.io error) := by
  induction lines with
  | nil => simp [fieldsOfLines, pure, Except.pure]
  | cons line run ih =>
    cases parsed : fieldOf line.2 line.1 with
    | error other =>
      rw [fieldsOfLines_of_error run parsed]
      intro same
      exact fieldOf_ne_io line.2 line.1 error (parsed.trans (Except.error.inj same ▸ rfl))
    | ok field =>
      rw [fieldsOfLines_of_ok run parsed]
      cases fields : fieldsOfLines run with
      | ok _ => simp [Except.map]
      | error other =>
        intro same
        rw [fields] at ih
        exact ih same

theorem headerEnd_ne_io (lines : List Bytes) (error : ReadError) :
    (DumpReader.headerEnd none lines).result ≠ .error (.io error) := by
  intro failed
  have result := (headerEnd_eq lines).1
  rw [failed] at result
  exact fieldsOfLines_ne_io _ error result.symm

/-! ### The body with all lines in hand -/

theorem bodyStart_le_length (first : Nat) (lines : List Bytes) :
    bodyStart first lines ≤ lines.length := by
  have run : (metaLines first lines).length ≤ lines.length := by
    rw [metaLines, List.length_zipIdx]
    exact (List.takeWhile_prefix _).length_le
  unfold bodyStart
  dsimp only
  split
  · omega
  · split
    · rename_i blank
      obtain ⟨inside, -⟩ := List.getElem?_eq_some_iff.mp blank.2
      exact inside
    · exact run

theorem bodyOf_eq_zipIdx (lines : List Bytes) :
    bodyOf lines = (lines.drop (bodyStart 1 lines)).zipIdx (bodyStart 1 lines + 1) := by
  apply List.ext_getElem
  · simp [bodyOf]
  · intro i _ _
    simp [bodyOf, Nat.add_comm, Nat.add_left_comm]

end Dump

namespace DumpReader

open Dump

/-- All that a reader gives: its header, then the records and bad lines up to the end. -/
def reading (r : DumpReader) : Reading :=
  let (header, after) := r.header
  let (items, last) := after.readAll
  { header, headerLine := after.lineNumber, items, lastLine := last.lineNumber }

theorem reading_of_readToEnd {source : Source} {bytes : Bytes}
    (data : source.readToEnd = (bytes, none, [])) (grammar : Grammar) (options : ReaderOptions) :
    (ofSource source grammar options).reading = Reading.ofBytes grammar options bytes := by
  have coming := Lines.ahead_of_readToEnd data
  obtain ⟨result, used, number, left⟩ := headerEnd_eq (linesOf bytes)
  obtain ⟨after, found, counted, -, -, reached⟩ := header_of_ahead coming grammar options
  obtain ⟨items, last⟩ := readAll_of_ahead (reached (headerEnd_ne_io (linesOf bytes)))
  rw [result] at found
  rw [number] at counted
  rw [used, left, ← bodyOf_eq_zipIdx] at items
  rw [used, left, List.length_drop,
    Nat.add_sub_of_le (bodyStart_le_length 1 (linesOf bytes))] at last
  simp only [reading, found, counted, items, last, Reading.ofBytes, failureItems,
    Option.toList_none, List.map_nil, List.append_nil]

/-- A dump gives the same however its bytes are delivered, and through a buffer of any size. -/
theorem reading_of_delivers {source : Source} {bytes : Bytes} {capacity : Nat}
    (delivers : source.Delivers bytes) (room : 1 ≤ capacity) (grammar : Grammar)
    (options : ReaderOptions) :
    (ofSource (source.buffered capacity) grammar options).reading =
      Reading.ofBytes grammar options bytes := by
  have data : (source.buffered capacity).readToEnd = (bytes, none, []) := by
    rw [Source.readToEnd_buffered (Nat.ne_of_gt room), delivers.readToEnd]
    simp [Source.buffered]
  exact reading_of_readToEnd data grammar options

/-- The mark, a CR LF and a record are torn apart by the deliveries. -/
theorem reading_of_torn_deliveries :
    let torn : Source := [.chunk [0xef, 0xbb], .failure (.fault { kind := .interrupted }),
      .chunk [0xbf, 35, 65, 58, 49, 13], .chunk [10, 10, 120], .chunk [124, 121]]
    torn.Delivers [0xef, 0xbb, 0xbf, 35, 65, 58, 49, 13, 10, 10, 120, 124, 121] ∧ 1 ≤ 2 ∧
      (ofSource (torn.buffered 2) (.fixed (some 3)) {}).reading =
        Reading.ofBytes (.fixed (some 3)) {}
          [0xef, 0xbb, 0xbf, 35, 65, 58, 49, 13, 10, 10, 120, 124, 121] := by
  intro torn
  have delivers : torn.Delivers [0xef, 0xbb, 0xbf, 35, 65, 58, 49, 13, 10, 10, 120, 124, 121] :=
    .chunk (by decide) (.interruption rfl (.chunk (by decide) (.chunk (by decide)
      (.chunk (by decide) .done))))
  exact ⟨delivers, by decide, reading_of_delivers delivers (by decide) _ _⟩

end DumpReader

end LinkArchive
