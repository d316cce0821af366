import LinkArchive.Proofs.Dump.Verbatim

/-!
# What answers tell of

A reader knows its source only through the lines that calls have given it. Each of its answers tells
of one of them, or of a header made of the first ones: `DumpReader.told_of_answers`.
-/

namespace LinkArchive

namespace Dump

/-! ### Lines that were given -/

def LineResult.line? : LineResult → Option Bytes
  | line bytes => some bytes
  | _ => none

/-- The lines that some calls give, which leave `lines`. -/
def Given (source : Source) (given : List Bytes) (lines : Lines) : Prop :=
  ∃ count, given = (({ source } : Lines).reads count).1.filterMap LineResult.line? ∧
    lines = (({ source } : Lines).reads count).2

theorem given_nil (source : Source) : Given source [] { source } := ⟨0, rfl, rfl⟩

variable {source : Source} {given : List Bytes} {lines after : Lines}

theorem Given.next (h : Given source given lines) :
    Given source (given ++ lines.next.1.line?.toList) lines.next.2 := by
  obtain ⟨count, rfl, rfl⟩ := h
  refine ⟨count + 1, ?_, rfl⟩
  rw [Lines.reads, List.filterMap_append]
  cases (({ source } : Lines).reads count).2.next.1 <;> rfl

theorem Given.line {line : Bytes} (h : Given source given lines)
    (found : lines.next = (.line line, after)) : Given source (given ++ [line]) after := by
  have next := h.next
  rwa [found] at next

theorem Given.stop {result : LineResult} (h : Given source given lines)
    (found : lines.next = (result, after)) (none : result.line? = none) :
    Given source given after := by
  have next := h.next
  rw [found] at next
  simpa [none] using next

theorem Lines.number_next (lines : Lines) :
    lines.next.2.number = lines.number + lines.next.1.line?.toList.length := by
  rcases scanned : scan lines.afterCr lines.source with ⟨_ | _ | _, afterCr, source⟩ <;>
    simp [next, scanned, LineResult.line?]

theorem Given.number (h : Given source given lines) : lines.number = given.length := by
  obtain ⟨count, rfl, rfl⟩ := h
  induction count with
  | zero => rfl
  | succ count ih =>
    rw [Lines.reads, List.filterMap_append, List.length_append, ← ih, Lines.number_next]
    cases (({ source } : Lines).reads count).2.next.1 <;> rfl

/-! ### Answers -/

theorem fieldsOfLines_append {run : List (Bytes × Nat)} {line : Bytes} {number : Nat}
    {fields : List MetaField} {field : MetaField} (first : fieldsOfLines run = .ok fields)
    (parsed : fieldOf number line = .ok field) :
    fieldsOfLines (run ++ [(line, number)]) = .ok (fields ++ [field]) := by
  unfold fieldsOfLines at first ⊢
  rw [List.mapM_append, first]
  simp only [List.mapM_cons, List.mapM_nil, parsed]
  rfl

/-- The fields that the first lines make. -/
def Heads (given : List Bytes) (fields : List MetaField) : Prop :=
  ∃ run, run <+: given.zipIdx 1 ∧ fieldsOfLines run = .ok fields

/-- Why there is no header: the source failed, or one of the lines is no field. -/
inductive Flaw (given : List Bytes) : DumpError → Prop where
  | failed (error : ReadError) : Flaw given (.io error)
  | line {line : Bytes} {number : Nat} {error : DumpError}
      (read : (line, number) ∈ given.zipIdx 1) (malformed : fieldOf number line = .error error) :
      Flaw given error

variable {later : List Bytes}

theorem zipIdx_isPrefix (before : given <+: later) : given.zipIdx 1 <+: later.zipIdx 1 := by
  obtain ⟨more, rfl⟩ := before
  rw [List.zipIdx_append]
  exact List.prefix_append _ _

theorem zipIdx_concat (given : List Bytes) (line : Bytes) :
    (given ++ [line]).zipIdx 1 = given.zipIdx 1 ++ [(line, given.length + 1)] := by
  rw [List.zipIdx_append, Nat.add_comm]
  rfl

theorem Heads.mono {fields : List MetaField} (h : Heads given fields) (before : given <+: later) :
    Heads later fields := by
  obtain ⟨run, first, parsed⟩ := h
  exact ⟨run, first.trans (zipIdx_isPrefix before), parsed⟩

theorem Flaw.mono {error : DumpError} (h : Flaw given error) (before : given <+: later) :
    Flaw later error := by
  cases h with
  | failed error => exact .failed error
  | line read malformed => exact .line ((zipIdx_isPrefix before).subset read) malformed

theorem no_flaw {α : Type} (value : α) (error : DumpError)
    (refused : (.ok value : Except DumpError α) = .error error) : Flaw later error := by
  cases refused

end Dump

namespace DumpReader

open Dump

/-- What an answer can be for a reader that was given these lines. -/
inductive Answer.Tells (grammar : Grammar) (options : ReaderOptions) (given : List Bytes) :
    Answer → Prop where
  | fields {fields : List MetaField} (first : Heads given fields) :
      Tells grammar options given (.fields (.ok fields))
  | noFields {error : DumpError} (flaw : Flaw given error) :
      Tells grammar options given (.fields (.error error))
  | noRecord {error : DumpError} (number : Nat) (flaw : Flaw given error) :
      Tells grammar options given (.record (.error error) [] number)
  | ended (number : Nat) : Tells grammar options given (.record (.ok none) [] number)
  | line {line : Bytes} {number : Nat} (read : (line, number) ∈ given.zipIdx 1) :
      Tells grammar options given
        (.record ((recordOf grammar options number line).1.map some)
          (recordOf grammar options number line).2 number)

variable {grammar : Grammar} {options : ReaderOptions} {source : Source}
variable {given later : List Bytes}

theorem Answer.Tells.mono {answer : Answer} (h : answer.Tells grammar options given)
    (before : given <+: later) : answer.Tells grammar options later := by
  cases h with
  | fields first => exact .fields (first.mono before)
  | noFields flaw => exact .noFields (flaw.mono before)
  | noRecord number flaw => exact .noRecord number (flaw.mono before)
  | ended number => exact .ended number
  | line read => exact .line ((zipIdx_isPrefix before).subset read)

/-- A reader that was given these lines: its fields are made of the first of them, and a line that
it holds is the last. -/
structure Knows (grammar : Grammar) (options : ReaderOptions) (source : Source)
    (given : List Bytes) (r : DumpReader) : Prop where
  lines : Given source given r.lines
  kept : r.grammar = grammar ∧ r.options = options
  fields : Heads given r.fields
  held : ∀ line, r.held = some line → (line, r.lineNumber) ∈ given.zipIdx 1

theorem Knows.of_free {r : DumpReader} (lines : Given source given r.lines)
    (kept : r.grammar = grammar ∧ r.options = options) (fields : Heads given r.fields)
    (free : r.held = none) : r.Knows grammar options source given :=
  ⟨lines, kept, fields, fun line held => by simp [free] at held⟩

theorem number_of_given {r : DumpReader} {line : Bytes}
    (lines : Given source (given ++ [line]) r.lines) : r.lineNumber = given.length + 1 := by
  rw [lineNumber, lines.number, List.length_append, List.length_singleton]

theorem mem_zipIdx_of_given {r : DumpReader} {line : Bytes}
    (lines : Given source (given ++ [line]) r.lines) :
    (line, r.lineNumber) ∈ (given ++ [line]).zipIdx 1 := by
  rw [number_of_given lines, zipIdx_concat]
  exact List.mem_append_right _ List.mem_cons_self

/-! ### The header -/

theorem fields_of_given {r : DumpReader} {line : Bytes} {field : MetaField}
    (lines : Given source (given ++ [line]) r.lines)
    (fields : fieldsOfLines (given.zipIdx 1) = .ok r.fields)
    (parsed : parseMeta r.lineNumber line = .ok field) :
    fieldsOfLines ((given ++ [line]).zipIdx 1) = .ok (r.fields ++ [field]) := by
  rw [parseMeta_eq, number_of_given lines] at parsed
  rw [zipIdx_concat]
  exact fieldsOfLines_append fields parsed

theorem knows_readFields {r : DumpReader} {line : Bytes}
    (lines : Given source (given ++ [line]) r.lines)
    (kept : r.grammar = grammar ∧ r.options = options) (free : r.held = none)
    (fields : fieldsOfLines (given.zipIdx 1) = .ok r.fields) :
    ∃ later, (r.readFields line).2.Knows grammar options source later ∧
      ∀ error, (r.readFields line).1 = .error error → Flaw later error := by
  fun_induction readFields r line generalizing given with
  | case1 r line error parsed =>
    rw [parseMeta_eq] at parsed
    have first : Heads (given ++ [line]) r.fields :=
      ⟨_, zipIdx_isPrefix (List.prefix_append _ _), fields⟩
    refine ⟨_, .of_free lines kept first free, ?_⟩
    rintro _ ⟨⟩
    exact .line (mem_zipIdx_of_given lines) parsed
  | case2 r line field parsed _ failure after =>
    rename_i found
    have first := fields_of_given lines fields parsed
    refine ⟨_, .of_free (lines.stop found rfl) kept ⟨_, List.prefix_refl _, first⟩ free, ?_⟩
    rintro _ ⟨⟩
    exact .failed failure
  | case3 r line field parsed _ after =>
    rename_i found
    have first := fields_of_given lines fields parsed
    exact ⟨_, .of_free (lines.stop found rfl) kept ⟨_, List.prefix_refl _, first⟩ free, no_flaw _⟩
  | case4 r line field parsed _ next after found =>
    have first := fields_of_given lines fields parsed
    exact ⟨_, .of_free (lines.line found) kept
      ⟨_, zipIdx_isPrefix (List.prefix_append _ _), first⟩ free, no_flaw _⟩
  | case5 r line field parsed _ next after found text isMeta =>
    rename_i ih
    exact ih (lines.line found) kept free (fields_of_given lines fields parsed)
  | case6 r line field parsed _ next after found text =>
    have first := fields_of_given lines fields parsed
    have more := lines.line found
    refine ⟨_, ⟨more, kept, ⟨_, zipIdx_isPrefix (List.prefix_append _ _), first⟩, ?_⟩, no_flaw _⟩
    rintro _ ⟨⟩
    exact mem_zipIdx_of_given (r := { r with lines := after }) more

/-- Looking for the header for the first time. -/
theorem knows_readHeader {r : DumpReader} (lines : Given source [] r.lines)
    (kept : r.grammar = grammar ∧ r.options = options) (free : r.held = none)
    (fields : r.fields = []) :
    ∃ later, r.readHeader.2.Knows grammar options source later ∧
      ∀ error, r.readHeader.1 = .error error → Flaw later error := by
  have none : Heads [] r.fields := ⟨[], List.prefix_refl _, by rw [fields]; rfl⟩
  unfold readHeader
  split
  · rename_i failure after found
    refine ⟨_, .of_free (lines.stop found rfl) kept none free, ?_⟩
    rintro _ ⟨⟩
    exact .failed failure
  · rename_i after found
    exact ⟨_, .of_free (lines.stop found rfl) kept none free, no_flaw _⟩
  · rename_i line after found
    have first := lines.line found
    split
    · exact knows_readFields (r := { r with lines := after }) first kept free (by rw [fields]; rfl)
    · refine ⟨_, ⟨first, kept, none.mono List.nil_prefix, ?_⟩, no_flaw _⟩
      rintro _ ⟨⟩
      exact mem_zipIdx_of_given (r := { r with lines := after }) first

/-! ### Records -/

theorem knows_nextLine {r after : DumpReader} {line : Bytes}
    (h : r.Knows grammar options source given) (found : r.nextLine = (.line line, after)) :
    ∃ later, given <+: later ∧ after.Knows grammar options source later ∧
      (line, after.lineNumber) ∈ later.zipIdx 1 := by
  unfold nextLine at found
  cases held : r.held with
  | some first =>
    rw [held] at found
    obtain ⟨same, rfl⟩ := Prod.mk.inj found
    obtain rfl := LineResult.line.inj same
    exact ⟨given, List.prefix_refl _, .of_free h.lines h.kept h.fields rfl, h.held _ held⟩
  | none =>
    rw [held] at found
    rcases read : r.lines.next with ⟨result, lines⟩
    rw [read] at found
    obtain ⟨rfl, rfl⟩ := Prod.mk.inj found
    have more := h.lines.line read
    have before : given <+: given ++ [line] := List.prefix_append _ _
    exact ⟨_, before, .of_free more h.kept (h.fields.mono before) rfl,
      mem_zipIdx_of_given (r := { r with lines }) more⟩

theorem knows_of_stop {r after : DumpReader} {result : LineResult}
    (h : r.Knows grammar options source given) (found : r.nextLine = (result, after))
    (none : result.line? = none) : after.Knows grammar options source given := by
  unfold nextLine at found
  cases held : r.held with
  | some first =>
    rw [held] at found
    obtain ⟨rfl, -⟩ := Prod.mk.inj found
    cases none
  | none =>
    rw [held] at found
    rcases read : r.lines.next with ⟨result, lines⟩
    rw [read] at found
    obtain ⟨rfl, rfl⟩ := Prod.mk.inj found
    exact .of_free (h.lines.stop read none) h.kept h.fields rfl

theorem knows_readRecord {r : DumpReader} (h : r.Knows grammar options source given) :
    ∃ later, given <+: later ∧ r.readRecord.2.2.Knows grammar options source later ∧
      (Answer.record r.readRecord.1 r.readRecord.2.1 r.readRecord.2.2.lineNumber).Tells grammar
        options later := by
  fun_induction readRecord r generalizing given with
  | case1 r after =>
    rename_i found
    have knows := knows_of_stop h found rfl
    exact ⟨_, List.prefix_refl _, ⟨knows.lines, knows.kept, knows.fields, knows.held⟩, .ended _⟩
  | case2 r error after =>
    rename_i found
    have knows := knows_of_stop h found rfl
    exact ⟨_, List.prefix_refl _, ⟨knows.lines, knows.kept, knows.fields, knows.held⟩,
      .noRecord _ (.failed error)⟩
  | case3 r line after found skipped =>
    rename_i ih
    obtain ⟨next, before, knows, -⟩ := knows_nextLine h found
    obtain ⟨later, behind, told⟩ := ih knows
    exact ⟨later, before.trans behind, told⟩
  | case4 r line after found kept result warnings =>
    rename_i parsed
    obtain ⟨later, before, knows, read⟩ := knows_nextLine h found
    obtain ⟨rfl, rfl⟩ := h.kept
    rw [parseLine_eq] at parsed
    have told := @Answer.Tells.line r.grammar r.options _ _ _ read
    rw [parsed] at told
    exact ⟨later, before, knows, told⟩

/-! ### Calls -/

/-- What a call gives tells of the lines that were given, and of those that it is given. -/
def TellsNext (grammar : Grammar) (options : ReaderOptions) (source : Source) (given : List Bytes)
    (asked : Answer × DumpReader) : Prop :=
  ∃ later, given <+: later ∧ asked.2.Knows grammar options source later ∧
    asked.1.Tells grammar options later

theorem tellsNext_of_begun {r : DumpReader} (h : r.Knows grammar options source given)
    (begun : r.phase ≠ .start) (call : Call) :
    TellsNext grammar options source given (r.ask call) := by
  cases call with
  | header =>
    rw [ask, header_of_begun begun]
    exact ⟨given, List.prefix_refl _, h, .fields h.fields⟩
  | read =>
    rw [ask]
    rcases read_of_begun begun with ⟨-, read⟩ | ⟨-, read⟩
    · rw [read]
      exact ⟨given, List.prefix_refl _, h, .ended _⟩
    · rw [read]
      exact knows_readRecord h

theorem tellsNext_ofSource (source : Source) (grammar : Grammar) (options : ReaderOptions)
    (call : Call) :
    TellsNext grammar options source [] ((ofSource source grammar options).ask call) := by
  let begun : DumpReader := { ofSource source grammar options with phase := .streaming }
  obtain ⟨given, knows, flaw⟩ :=
    knows_readHeader (r := begun) (given_nil source) ⟨rfl, rfl⟩ rfl rfl
  rcases found : begun.readHeader with ⟨result, after⟩
  rw [found] at knows flaw
  have looked := header_of_readHeader (r := ofSource source grammar options) rfl found
  cases call with
  | header =>
    rw [ask, looked]
    cases result with
    | error error => exact ⟨given, List.nil_prefix, knows, .noFields (flaw error rfl)⟩
    | ok _ => exact ⟨given, List.nil_prefix, knows, .fields knows.fields⟩
  | read =>
    have start : (ofSource source grammar options).phase = .start := rfl
    cases result with
    | error error =>
      simp only [ask, DumpReader.read, start, looked, Except.map]
      exact ⟨given, List.nil_prefix, knows, .noRecord _ (flaw error rfl)⟩
    | ok _ =>
      simp only [ask, DumpReader.read, start, looked, Except.map]
      obtain ⟨later, -, told⟩ := knows_readRecord knows
      exact ⟨later, List.nil_prefix, told⟩

theorem tells_of_begun {r : DumpReader} (h : r.Knows grammar options source given)
    (begun : r.phase ≠ .start) (calls : List Call) :
    ∃ later, given <+: later ∧ (r.answers calls).2.Knows grammar options source later ∧
      ∀ answer ∈ (r.answers calls).1, answer.Tells grammar options later := by
  induction calls generalizing r given with
  | nil => exact ⟨given, List.prefix_refl _, h, nofun⟩
  | cons call calls ih =>
    obtain ⟨next, before, knows, told⟩ := tellsNext_of_begun h begun call
    obtain ⟨later, behind, last, others⟩ := ih knows (begun_ask r call)
    exact ⟨later, before.trans behind, last,
      List.forall_mem_cons.mpr ⟨told.mono behind, others⟩⟩

/-- Whatever a reader is asked, its answers tell of the lines that were read for it. -/
theorem told_of_answers (source : Source) (grammar : Grammar) (options : ReaderOptions)
    (calls : List Call) :
    ∃ given, Given source given ((ofSource source grammar options).answers calls).2.lines ∧
      ∀ answer ∈ ((ofSource source grammar options).answers calls).1,
        answer.Tells grammar options given := by
  cases calls with
  | nil => exact ⟨[], given_nil source, nofun⟩
  | cons call calls =>
    obtain ⟨next, -, knows, told⟩ := tellsNext_ofSource source grammar options call
    obtain ⟨later, behind, last, others⟩ := tells_of_begun knows (begun_ask _ call) calls
    exact ⟨later, last.lines, List.forall_mem_cons.mpr ⟨told.mono behind, others⟩⟩

end DumpReader

end LinkArchive
