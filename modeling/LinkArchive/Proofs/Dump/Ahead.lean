import LinkArchive.Dump.Reader
import LinkArchive.Proofs.Dump.Grammar
import LinkArchive.Proofs.Dump.Splitting

/-!
# The lines ahead of a reader

`DumpReader.Ahead` says which lines a reader has still to go through and what ends them. Each step
of a reader is described by what it does to these lines: `readFields_of_ahead` for the header, and
`readAll_of_ahead` for all records after it.
-/

namespace LinkArchive.DumpReader

open Dump

variable {grammar : Grammar} {options : ReaderOptions} {fields : List MetaField}
variable {ahead : List Bytes} {failure : Option ReadError} {used : Nat}

/-- A reader that has looked for its header, has gone through `used` lines and has `ahead` still to
come before the data ends with `failure`. A line that is held has been read but not gone through. -/
structure Ahead (r : DumpReader) (grammar : Grammar) (options : ReaderOptions)
    (fields : List MetaField) (used : Nat) (ahead : List Bytes) (failure : Option ReadError) :
    Prop where
  grammar_eq : r.grammar = grammar
  options_eq : r.options = options
  fields_eq : r.fields = fields
  streaming : r.phase = .streaming
  number : r.lineNumber = used + r.held.toList.length
  coming : ∃ rest, ahead = r.held.toList ++ rest ∧ r.lines.Ahead rest failure

/-! ### One line -/

theorem nextLine_of_ahead_cons {r : DumpReader} {line : Bytes}
    (h : r.Ahead grammar options fields used (line :: ahead) failure) :
    ∃ after, r.nextLine = (.line line, after) ∧ after.lineNumber = used + 1 ∧
      after.Ahead grammar options fields (used + 1) ahead failure := by
  obtain ⟨rest, coming, next⟩ := h.coming
  unfold nextLine
  cases held : r.held with
  | some first =>
    rw [held] at coming
    obtain ⟨rfl, rfl⟩ := List.cons.inj coming
    have number := h.number
    rw [held] at number
    exact ⟨_, rfl, number, h.grammar_eq, h.options_eq, h.fields_eq, h.streaming, number, _, rfl,
      next⟩
  | none =>
    rw [held] at coming
    obtain rfl : line :: ahead = rest := coming
    obtain ⟨after, read, counted, later⟩ := Lines.next_of_ahead next
    have number := h.number
    rw [held] at number
    have counted : after.number = used + 1 := counted.trans (congrArg (· + 1) number)
    rw [read]
    exact ⟨_, rfl, counted, h.grammar_eq, h.options_eq, h.fields_eq, h.streaming, counted, ahead,
      rfl, later⟩

theorem nextLine_of_ahead_nil {r : DumpReader}
    (h : r.Ahead grammar options fields used [] failure) :
    ∃ after, r.nextLine = (failure.elim .ended .failed, after) ∧ after.lineNumber = used := by
  obtain ⟨rest, coming, next⟩ := h.coming
  obtain ⟨held, rfl⟩ := List.append_eq_nil_iff.mp coming.symm
  have held : r.held = none := by simpa using held
  obtain ⟨after, read, counted, -⟩ := Lines.next_of_ahead next
  have number := h.number
  rw [held] at number
  unfold nextLine
  rw [held, read]
  exact ⟨_, rfl, counted.trans number⟩

/-! ### Records -/

def itemOf (grammar : Grammar) (options : ReaderOptions) (line : Bytes × Nat) : Item where
  number := line.2
  result := (recordOf grammar options line.2 line.1).1
  warnings := (recordOf grammar options line.2 line.1).2

def isSkipped (options : ReaderOptions) (line : Bytes × Nat) : Bool :=
  line.1.isEmpty && options.skipBlankLines

def itemsOf (grammar : Grammar) (options : ReaderOptions) (body : List (Bytes × Nat)) : List Item :=
  (body.filter (!isSkipped options ·)).map (itemOf grammar options)

/-- What a failure gives after `number` lines. -/
def failureItems (number : Nat) (failure : Option ReadError) : List Item :=
  failure.toList.map fun error => ⟨number, .error (.io error), []⟩

theorem readAll_of_ended {r after : DumpReader} {warnings : List Warning}
    (read : r.read = (.ok none, warnings, after)) : r.readAll = ([], after) := by
  rw [readAll]
  split <;> simp_all

theorem readAll_of_result {r after : DumpReader} (result : Except DumpError LinkRecord)
    {warnings : List Warning} (read : r.read = (result.map some, warnings, after)) :
    r.readAll = (⟨after.lineNumber, result, warnings⟩ :: after.readAll.1, after.readAll.2) := by
  rw [readAll]
  cases result <;> simp only [Except.map] at read <;> split <;> simp_all

theorem readAll_congr {r other : DumpReader} (same : r.read = other.read) :
    r.readAll = other.readAll := by
  rcases read : other.read with ⟨_ | _ | record, warnings, after⟩
  · rw [readAll_of_result (.error _) (same.trans read),
      readAll_of_result (.error _) read]
  · rw [readAll_of_ended (same.trans read), readAll_of_ended read]
  · rw [readAll_of_result (.ok record) (same.trans read),
      readAll_of_result (.ok record) read]

theorem readRecord_of_stop {r after : DumpReader}
    (found : r.nextLine = (failure.elim .ended .failed, after)) :
    r.readRecord =
      (failure.elim (.ok none) (.error ∘ .io), [], { after with phase := .exhausted }) := by
  rw [readRecord]
  cases failure <;> split <;> simp_all

theorem readRecord_of_skipped {r after : DumpReader} {line : Bytes}
    (found : r.nextLine = (.line line, after))
    (skipped : (line.isEmpty && r.options.skipBlankLines) = true) :
    r.readRecord = after.readRecord := by
  rw [readRecord]
  split <;> simp_all

theorem readRecord_of_line {r after : DumpReader} {line : Bytes}
    (found : r.nextLine = (.line line, after))
    (kept : (line.isEmpty && r.options.skipBlankLines) = false) :
    r.readRecord =
      ((parseLine r.grammar r.options after.lineNumber line).1.map some,
        (parseLine r.grammar r.options after.lineNumber line).2, after) := by
  rw [readRecord]
  split <;> simp_all

theorem read_of_streaming {r : DumpReader} (streaming : r.phase = .streaming) :
    r.read = r.readRecord := by
  rw [DumpReader.read, streaming]

theorem readAll_of_exhausted {r : DumpReader} (exhausted : r.phase = .exhausted) :
    r.readAll = ([], r) := by
  have read : r.read = (.ok none, [], r) := by rw [DumpReader.read, exhausted]
  exact readAll_of_ended read

theorem itemsOf_cons_of_skipped {line : Bytes × Nat} (body : List (Bytes × Nat))
    (skipped : isSkipped options line = true) :
    itemsOf grammar options (line :: body) = itemsOf grammar options body := by
  simp [itemsOf, skipped]

theorem itemsOf_cons_of_kept {line : Bytes × Nat} (body : List (Bytes × Nat))
    (kept : isSkipped options line = false) :
    itemsOf grammar options (line :: body) =
      itemOf grammar options line :: itemsOf grammar options body := by
  simp [itemsOf, kept]

/-- All lines ahead are gone through, and a failure behind them is reported once. -/
theorem readAll_of_ahead {r : DumpReader}
    (h : r.Ahead grammar options fields used ahead failure) :
    r.readAll.1 = itemsOf grammar options (ahead.zipIdx (used + 1)) ++
        failureItems (used + ahead.length) failure ∧
      r.readAll.2.lineNumber = used + ahead.length := by
  induction ahead generalizing r used with
  | nil =>
    obtain ⟨after, found, number⟩ := nextLine_of_ahead_nil h
    have read := (read_of_streaming h.streaming).trans (readRecord_of_stop found)
    cases failure with
    | none =>
      rw [readAll_of_ended read]
      exact ⟨rfl, number⟩
    | some error =>
      rw [readAll_of_result (.error (.io error)) read, readAll_of_exhausted rfl]
      have number : ({ after with phase := .exhausted } : DumpReader).lineNumber = used := number
      rw [number]
      exact ⟨rfl, rfl⟩
  | cons line ahead ih =>
    obtain ⟨after, found, number, later⟩ := nextLine_of_ahead_cons h
    have length : used + (line :: ahead).length = used + 1 + ahead.length := by
      simp only [List.length_cons]
      omega
    rw [List.zipIdx_cons, length]
    cases skipped : isSkipped options (line, used + 1) with
    | true =>
      have read : r.read = after.read := by
        rw [read_of_streaming h.streaming, read_of_streaming later.streaming]
        exact readRecord_of_skipped found (by rw [h.options_eq]; exact skipped)
      rw [readAll_congr read, itemsOf_cons_of_skipped _ skipped]
      exact ih later
    | false =>
      have read := (read_of_streaming h.streaming).trans
        (readRecord_of_line found (by rw [h.options_eq]; exact skipped))
      rw [readAll_of_result _ read, itemsOf_cons_of_kept _ skipped, h.grammar_eq, h.options_eq,
        number, parseLine_eq]
      obtain ⟨items, last⟩ := ih later
      exact ⟨congrArg _ items, last⟩

/-! ### The header -/

/-- Where looking for the header ends: what it gives, the fields read, how many lines belong to it,
those after them, and how many lines were read. -/
structure HeaderEnd where
  result : Except DumpError Unit
  fields : List MetaField
  used : Nat
  ahead : List Bytes
  number : Nat

def endResult (failure : Option ReadError) : Except DumpError Unit :=
  failure.elim (.ok ()) (.error ∘ .io)

/-- Goes through the header lines from `line`, which is line `number`, after `fields` were read. -/
def fieldsFrom (failure : Option ReadError) (fields : List MetaField) (number : Nat)
    (line : Bytes) (ahead : List Bytes) : HeaderEnd :=
  match fieldOf number line with
  | .error error => ⟨.error error, fields, number, ahead, number⟩
  | .ok field =>
    match ahead with
    | [] => ⟨endResult failure, fields ++ [field], number, [], number⟩
    | next :: rest =>
      if next.isEmpty then ⟨.ok (), fields ++ [field], number + 1, rest, number + 1⟩
      else if isMetaLine next then fieldsFrom failure (fields ++ [field]) (number + 1) next rest
      else ⟨.ok (), fields ++ [field], number, next :: rest, number + 1⟩

def headerEnd (failure : Option ReadError) : List Bytes → HeaderEnd
  | [] => ⟨endResult failure, [], 0, [], 0⟩
  | line :: ahead =>
    if isMetaLine line then fieldsFrom failure [] 1 line ahead
    else ⟨.ok (), [], 0, line :: ahead, 1⟩

/-- A reader that has come to the end of its header. Where the data failed, nothing is said of what
is still to come. -/
def Reached (r : DumpReader) (grammar : Grammar) (options : ReaderOptions) (reached : HeaderEnd)
    (failure : Option ReadError) : Prop :=
  r.lineNumber = reached.number ∧ r.fields = reached.fields ∧ r.phase = .streaming ∧
    ((∀ error, reached.result ≠ .error (.io error)) →
      r.Ahead grammar options reached.fields reached.used reached.ahead failure)

section Steps

variable {r : DumpReader} {line next : Bytes} {field : MetaField} {lines : Lines}

theorem readFields_of_malformed {error : DumpError}
    (malformed : parseMeta r.lineNumber line = .error error) :
    r.readFields line = (.error error, r) := by
  rw [readFields, malformed]

theorem readFields_of_stop (parsed : parseMeta r.lineNumber line = .ok field)
    (found : r.lines.next = (failure.elim .ended .failed, lines)) :
    r.readFields line = (endResult failure, { r with fields := r.fields ++ [field], lines }) := by
  rw [readFields, parsed]
  cases failure <;> dsimp only <;> split <;> simp_all [endResult]

theorem readFields_of_blank (parsed : parseMeta r.lineNumber line = .ok field)
    (found : r.lines.next = (.line next, lines)) (blank : next.isEmpty = true) :
    r.readFields line = (.ok (), { r with fields := r.fields ++ [field], lines }) := by
  rw [readFields, parsed]
  dsimp only
  split <;> simp_all

theorem readFields_of_meta (parsed : parseMeta r.lineNumber line = .ok field)
    (found : r.lines.next = (.line next, lines)) (more : next.isEmpty = false)
    (isMeta : isMetaLine next = true) :
    r.readFields line = readFields { r with fields := r.fields ++ [field], lines } next := by
  rw [readFields, parsed]
  dsimp only
  split <;> simp_all

theorem readFields_of_other (parsed : parseMeta r.lineNumber line = .ok field)
    (found : r.lines.next = (.line next, lines)) (more : next.isEmpty = false)
    (other : isMetaLine next = false) :
    r.readFields line =
      (.ok (), { r with fields := r.fields ++ [field], lines, held := some next }) := by
  rw [readFields, parsed]
  dsimp only
  split <;> simp_all

end Steps

theorem Ahead.lines_ahead {r : DumpReader} (free : r.held = none)
    (h : r.Ahead grammar options fields used ahead failure) :
    r.lines.number = used ∧ r.lines.Ahead ahead failure := by
  have number := h.number
  obtain ⟨rest, coming, later⟩ := h.coming
  rw [free] at number coming
  obtain rfl : ahead = rest := coming
  exact ⟨number, later⟩

theorem Ahead.read_on {r : DumpReader} (free : r.held = none)
    (h : r.Ahead grammar options fields used ahead failure) (field : MetaField) {lines : Lines}
    {number : Nat} {rest : List Bytes} (counted : lines.number = number)
    (later : lines.Ahead rest failure) :
    Ahead { r with fields := r.fields ++ [field], lines } grammar options (fields ++ [field]) number
      rest failure where
  grammar_eq := h.grammar_eq
  options_eq := h.options_eq
  fields_eq := congrArg (· ++ [field]) h.fields_eq
  streaming := h.streaming
  number := by rw [free]; exact counted
  coming := ⟨rest, by rw [free]; rfl, later⟩

theorem fieldsFrom_of_malformed {line : Bytes} {error : DumpError}
    (malformed : fieldOf used line = .error error) :
    fieldsFrom failure fields used line ahead = ⟨.error error, fields, used, ahead, used⟩ := by
  cases ahead <;> simp only [fieldsFrom, malformed]

theorem Ahead.parsing {r : DumpReader} (free : r.held = none)
    (h : r.Ahead grammar options fields used ahead failure) (line : Bytes) :
    parseMeta r.lineNumber line = fieldOf used line := by
  rw [parseMeta_eq, lineNumber, (h.lines_ahead free).1]

theorem readFields_of_ahead_malformed {r : DumpReader} {line : Bytes} {error : DumpError}
    (free : r.held = none) (h : r.Ahead grammar options fields used ahead failure)
    (malformed : fieldOf used line = .error error) :
    ∃ after, r.readFields line = ((fieldsFrom failure fields used line ahead).result, after) ∧
      after.Reached grammar options (fieldsFrom failure fields used line ahead) failure := by
  obtain ⟨number, -⟩ := h.lines_ahead free
  rw [fieldsFrom_of_malformed malformed]
  refine ⟨r, readFields_of_malformed ((h.parsing free line).trans malformed), number, h.fields_eq,
    h.streaming, ?_⟩
  intro _
  exact h

theorem readFields_of_ahead {r : DumpReader} (line : Bytes) (free : r.held = none)
    (h : r.Ahead grammar options fields used ahead failure) :
    ∃ after, r.readFields line = ((fieldsFrom failure fields used line ahead).result, after) ∧
      after.Reached grammar options (fieldsFrom failure fields used line ahead) failure := by
  induction ahead generalizing r used fields line with
  | nil =>
    cases parsed : fieldOf used line with
    | error error => exact readFields_of_ahead_malformed free h parsed
    | ok field =>
      obtain ⟨number, coming⟩ := h.lines_ahead free
      obtain ⟨lines, found, counted, later⟩ := Lines.next_of_ahead coming
      have counted : lines.number = used := counted.trans number
      rw [fieldsFrom, parsed]
      refine ⟨_, readFields_of_stop ((h.parsing free line).trans parsed) found, counted,
        congrArg (· ++ [field]) h.fields_eq, h.streaming, ?_⟩
      intro fine
      cases failure with
      | none => exact h.read_on free field counted (later rfl)
      | some error => exact absurd rfl (fine error)
  | cons next rest ih =>
    cases parsed : fieldOf used line with
    | error error => exact readFields_of_ahead_malformed free h parsed
    | ok field =>
      obtain ⟨number, coming⟩ := h.lines_ahead free
      obtain ⟨lines, found, counted, later⟩ := Lines.next_of_ahead coming
      have parsing := (h.parsing free line).trans parsed
      have counted : lines.number = used + 1 := counted.trans (congrArg (· + 1) number)
      have reached := h.read_on free field counted later
      rw [fieldsFrom, parsed]
      dsimp only
      cases blank : next.isEmpty with
      | true =>
        exact ⟨_, readFields_of_blank parsing found blank, counted, reached.fields_eq, h.streaming,
          fun _ => reached⟩
      | false =>
        cases isMeta : isMetaLine next with
        | true =>
          rw [readFields_of_meta parsing found blank isMeta]
          exact ih next free reached
        | false =>
          -- the line is held: it has been read, but belongs to the body
          exact ⟨_, readFields_of_other parsing found blank isMeta, counted, reached.fields_eq,
            h.streaming, fun _ => ⟨h.grammar_eq, h.options_eq, reached.fields_eq, h.streaming,
              counted, rest, rfl, later⟩⟩

theorem readHeader_of_stop {r : DumpReader} {lines : Lines}
    (found : r.lines.next = (failure.elim .ended .failed, lines)) :
    r.readHeader = (endResult failure, { r with lines }) := by
  rw [readHeader, found]
  cases failure <;> rfl

theorem readHeader_of_line {r : DumpReader} {line : Bytes} {lines : Lines}
    (found : r.lines.next = (.line line, lines)) :
    r.readHeader = if isMetaLine line then readFields { r with lines } line
      else (.ok (), { r with lines, held := some line }) := by
  rw [readHeader, found]

theorem header_of_readHeader {r after : DumpReader} {result : Except DumpError Unit}
    (start : r.phase = .start)
    (found : readHeader { r with phase := .streaming } = (result, after)) :
    r.header = (result.map fun _ => after.fields, after) := by
  rw [header, start]
  simp only [found]

theorem header_of_ahead {source : Source} (coming : Lines.Ahead { source } ahead failure)
    (grammar : Grammar) (options : ReaderOptions) :
    ∃ after, (ofSource source grammar options).header =
        ((headerEnd failure ahead).result.map fun _ => (headerEnd failure ahead).fields, after) ∧
      after.Reached grammar options (headerEnd failure ahead) failure := by
  let begun : DumpReader := { ofSource source grammar options with phase := .streaming }
  suffices reads : ∃ after, begun.readHeader = ((headerEnd failure ahead).result, after) ∧
      after.Reached grammar options (headerEnd failure ahead) failure by
    obtain ⟨after, found, reached⟩ := reads
    refine ⟨after, ?_, reached⟩
    rw [header_of_readHeader rfl found, reached.2.1]
  cases ahead with
  | nil =>
    obtain ⟨lines, found, counted, later⟩ := Lines.next_of_ahead coming
    refine ⟨_, readHeader_of_stop found, counted, rfl, rfl, ?_⟩
    intro fine
    cases failure with
    | none => exact ⟨rfl, rfl, rfl, rfl, counted, [], rfl, later rfl⟩
    | some error => exact absurd rfl (fine error)
  | cons line ahead =>
    obtain ⟨lines, found, counted, later⟩ := Lines.next_of_ahead coming
    have read := readHeader_of_line (r := begun) found
    cases isMeta : isMetaLine line with
    | true =>
      simp only [headerEnd, read, isMeta, if_true]
      exact readFields_of_ahead line rfl ⟨rfl, rfl, rfl, rfl, counted, ahead, rfl, later⟩
    | false =>
      simp only [headerEnd, read, isMeta, Bool.false_eq_true, if_false]
      exact ⟨_, rfl, counted, rfl, rfl, fun _ => ⟨rfl, rfl, rfl, rfl, counted, ahead, rfl, later⟩⟩

end LinkArchive.DumpReader
