import LinkArchive.Dump.Reader
import LinkArchive.Proofs.Dump.Grammar

/-!
# Single steps of a reader

What one call of a reader can come to, whatever its source does. A read finds the end of the lines,
a failure, or a line that it has not been at before: `step_readRecord`. A header that is no header
is known from its last line: `malformed_of_header`.
-/

namespace LinkArchive

namespace Dump

/-! ### What a line can give -/

/-- A line raises no warning, or one of its own that goes with its record. -/
theorem warnings_recordOf (grammar : Grammar) (options : ReaderOptions) (number : Nat)
    (line : Bytes) :
    (recordOf grammar options number line).2 = [] ∨
      ∃ record flaw, recordOf grammar options number line = (.ok record, [flaw]) ∧
        flaw.line = number := by
  unfold recordOf
  split
  · exact .inl rfl
  · unfold genericOf
    split <;> exact .inl rfl
  · rename_i width _
    unfold fixedOf
    split
    · rename_i shortcode _ _ _
      cases width.filter (· != shortcode.length) with
      | none => exact .inl rfl
      | some expected => exact .inr ⟨_, _, rfl, rfl⟩
    · split
      · exact .inl rfl
      · exact .inr ⟨_, _, rfl, rfl⟩

/-- What can be wrong with a line of the body. -/
inductive BodyError (number : Nat) : DumpError → Prop where
  | tooManyFields (line : String) : BodyError number (.tooManyFields line)
  | missingSeparator (line : String) : BodyError number (.missingSeparator number line)
  | invalidUtf8 : BodyError number (.invalidUtf8 number)

theorem bodyError_recordOf {grammar : Grammar} {options : ReaderOptions} {number : Nat}
    {line : Bytes} {error : DumpError}
    (failed : (recordOf grammar options number line).1 = .error error) :
    BodyError number error := by
  unfold recordOf at failed
  split at failed
  · cases failed
    exact .invalidUtf8
  · unfold genericOf at failed
    split at failed <;> cases failed
    exact .tooManyFields _
  · unfold fixedOf at failed
    split at failed
    · cases failed
    · split at failed
      · cases failed
        exact .missingSeparator _
      · cases failed

/-- What can be wrong with a header line. -/
inductive HeaderError (number : Nat) : DumpError → Prop where
  | malformedHeader (line : String) : HeaderError number (.malformedHeader line)
  | invalidUtf8 : HeaderError number (.invalidUtf8 number)

theorem headerError_parseMeta {number : Nat} {line : Bytes} {error : DumpError}
    (failed : parseMeta number line = .error error) : HeaderError number error := by
  unfold parseMeta at failed
  split at failed
  · cases failed
    exact .invalidUtf8
  · split at failed
    · cases failed
      exact .malformedHeader _
    · cases failed

/-- No line of the body is wrong the way that a header line before it is. -/
theorem BodyError.ne_headerError {first later : Nat} {error : DumpError} (behind : first < later)
    (body : BodyError later error) : ¬HeaderError first error := by
  intro header
  cases header with
  | malformedHeader line => cases body
  | invalidUtf8 =>
    cases body
    exact Nat.lt_irrefl _ behind

theorem Lines.number_next_of_line {lines after : Lines} {line : Bytes}
    (found : lines.next = (.line line, after)) : after.number = lines.number + 1 := by
  rcases scanned : scan lines.afterCr lines.source with ⟨_ | _ | _, afterCr, source⟩ <;>
    simp only [next, scanned] at found
  · obtain ⟨-, rfl⟩ := Prod.mk.inj found
    rfl
  · cases (Prod.mk.inj found).1
  · cases (Prod.mk.inj found).1

end Dump

namespace DumpReader

open Dump

/-! ### Reads -/

/-- What no read changes. -/
structure Keeps (r after : DumpReader) : Prop where
  grammar_eq : after.grammar = r.grammar
  options_eq : after.options = r.options
  fields_eq : after.fields = r.fields

theorem Keeps.refl (r : DumpReader) : r.Keeps r := ⟨rfl, rfl, rfl⟩

theorem Keeps.trans {r next after : DumpReader} (first : r.Keeps next) (second : next.Keeps after) :
    r.Keeps after where
  grammar_eq := second.grammar_eq.trans first.grammar_eq
  options_eq := second.options_eq.trans first.options_eq
  fields_eq := second.fields_eq.trans first.fields_eq

/-- How a reader is left at a line it has read: it has not been at this line before, unless to hold
it back. -/
structure Moves (r after : DumpReader) : Prop where
  keeps : r.Keeps after
  phase_eq : after.phase = r.phase
  free : after.held = none
  forward : r.lineNumber < after.lineNumber + r.held.toList.length

theorem keeps_nextLine (r : DumpReader) :
    r.Keeps r.nextLine.2 ∧ r.nextLine.2.phase = r.phase := by
  unfold nextLine
  split <;> exact ⟨⟨rfl, rfl, rfl⟩, rfl⟩

theorem moves_nextLine {r after : DumpReader} {line : Bytes}
    (found : r.nextLine = (.line line, after)) : r.Moves after := by
  unfold nextLine at found
  cases held : r.held with
  | some first =>
    rw [held] at found
    obtain ⟨-, rfl⟩ := Prod.mk.inj found
    exact ⟨⟨rfl, rfl, rfl⟩, rfl, rfl, by simp [held, lineNumber]⟩
  | none =>
    rw [held] at found
    rcases read : r.lines.next with ⟨result, lines⟩
    rw [read] at found
    obtain ⟨rfl, rfl⟩ := Prod.mk.inj found
    have counted := Lines.number_next_of_line read
    exact ⟨⟨rfl, rfl, rfl⟩, rfl, rfl, by simp [held, lineNumber, counted]⟩

/-- All that looking for a record can come to. -/
inductive Step (r : DumpReader) :
    Except DumpError (Option LinkRecord) × List Warning × DumpReader → Prop where
  | ended {after : DumpReader} (keeps : r.Keeps after) (exhausted : after.phase = .exhausted) :
      Step r (.ok none, [], after)
  | failed {after : DumpReader} (error : ReadError) (keeps : r.Keeps after)
      (exhausted : after.phase = .exhausted) : Step r (.error (.io error), [], after)
  | line {after : DumpReader} (line : Bytes) (moves : r.Moves after) :
      Step r ((recordOf r.grammar r.options after.lineNumber line).1.map some,
        (recordOf r.grammar r.options after.lineNumber line).2, after)

theorem step_readRecord (r : DumpReader) : r.Step r.readRecord := by
  fun_induction readRecord r with
  | case1 r after found =>
    have keeps := (keeps_nextLine r).1
    rw [found] at keeps
    exact .ended ⟨keeps.grammar_eq, keeps.options_eq, keeps.fields_eq⟩ rfl
  | case2 r error after found =>
    have keeps := (keeps_nextLine r).1
    rw [found] at keeps
    exact .failed error ⟨keeps.grammar_eq, keeps.options_eq, keeps.fields_eq⟩ rfl
  | case3 r line after found skipped ih =>
    -- the blank line is passed over, so the next one is further on
    have moves := moves_nextLine found
    generalize after.readRecord = read at ih
    cases ih with
    | ended keeps exhausted => exact .ended (moves.keeps.trans keeps) exhausted
    | failed error keeps exhausted => exact .failed error (moves.keeps.trans keeps) exhausted
    | @line last line more =>
      have forward := more.forward
      rw [moves.free] at forward
      have forward : after.lineNumber < last.lineNumber := forward
      have further : r.Moves last := ⟨moves.keeps.trans more.keeps,
        more.phase_eq.trans moves.phase_eq, more.free, Nat.lt_of_lt_of_le moves.forward (by omega)⟩
      rw [moves.keeps.grammar_eq, moves.keeps.options_eq]
      exact .line line further
  | case4 r line after found kept result warnings parsed =>
    have moves := moves_nextLine found
    rw [parseLine_eq] at parsed
    have step := Step.line line moves
    rw [parsed] at step
    exact step

/-- A reader that has looked for its header reads on from where it is. -/
theorem read_of_begun {r : DumpReader} (begun : r.phase ≠ .start) :
    r.phase = .exhausted ∧ r.read = (.ok none, [], r) ∨
      r.phase = .streaming ∧ r.read = r.readRecord := by
  cases phase : r.phase with
  | start => exact absurd phase begun
  | streaming => exact .inr ⟨rfl, by rw [DumpReader.read, phase]⟩
  | exhausted => exact .inl ⟨rfl, by rw [DumpReader.read, phase]⟩

/-- Reads end for good, or leave the reader at a line further on. -/
theorem step_read {r : DumpReader} (begun : r.phase ≠ .start) : r.Step r.read := by
  rcases read_of_begun begun with ⟨exhausted, read⟩ | ⟨-, read⟩
  · rw [read]
    exact .ended (.refl r) exhausted
  · rw [read]
    exact step_readRecord r

theorem Step.begun {r after : DumpReader} {result : Except DumpError (Option LinkRecord)}
    {warnings : List Warning} (step : r.Step (result, warnings, after))
    (begun : r.phase ≠ .start) : after.phase ≠ .start := by
  cases step with
  | ended _ exhausted => simp [exhausted]
  | failed _ _ exhausted => simp [exhausted]
  | line _ moves =>
    rw [moves.phase_eq]
    exact begun

theorem Step.keeps {r after : DumpReader} {result : Except DumpError (Option LinkRecord)}
    {warnings : List Warning} (step : r.Step (result, warnings, after)) : r.Keeps after := by
  cases step with
  | ended keeps _ => exact keeps
  | failed _ keeps _ => exact keeps
  | line _ moves => exact moves.keeps

/-- Where there are no more records, and where the source failed, the records have ended. -/
theorem Step.exhausted {r after : DumpReader} {result : Except DumpError (Option LinkRecord)}
    {warnings : List Warning} (step : r.Step (result, warnings, after))
    (last : result = .ok none ∨ ∃ error, result = .error (.io error)) :
    after.phase = .exhausted := by
  cases step with
  | ended _ exhausted => exact exhausted
  | failed _ _ exhausted => exact exhausted
  | line line moves =>
    rcases found : (recordOf r.grammar r.options after.lineNumber line).1 with error | record
    · rw [found] at last
      rcases last with none | ⟨failure, failed⟩
      · cases none
      · cases failed
        cases bodyError_recordOf found
    · rw [found] at last
      rcases last with none | ⟨failure, failed⟩
      · cases none
      · cases failed

/-! ### Headers -/

theorem header_of_begun {r : DumpReader} (begun : r.phase ≠ .start) :
    r.header = (.ok r.fields, r) := by
  unfold header
  split
  · exact absurd ‹r.phase = .start› begun
  · rfl

/-- What is left of a reader whose header is wrong at its last line. -/
structure Malformed (after : DumpReader) (error : DumpError) : Prop where
  free : after.held = none
  there : HeaderError after.lineNumber error

theorem malformed_of_readFields {r after : DumpReader} {line : Bytes} {error : DumpError}
    (free : r.held = none) (failed : r.readFields line = (.error error, after)) :
    (∃ failure, error = .io failure) ∨ after.Malformed error := by
  fun_induction readFields r line with
  | case1 r line flaw parsed =>
    obtain ⟨same, rfl⟩ := Prod.mk.inj failed
    cases same
    exact .inr ⟨free, headerError_parseMeta parsed⟩
  | case2 r line _ _ fields failure lines found =>
    obtain ⟨same, -⟩ := Prod.mk.inj failed
    cases same
    exact .inl ⟨failure, rfl⟩
  | case3 => cases (Prod.mk.inj failed).1
  | case4 => cases (Prod.mk.inj failed).1
  | case5 r line _ _ fields next lines found _ _ ih => exact ih free failed
  | case6 => cases (Prod.mk.inj failed).1

theorem phase_readFields (r : DumpReader) (line : Bytes) :
    (r.readFields line).2.phase = r.phase := by
  fun_induction readFields r line with
  | case5 _ _ _ _ _ _ _ _ _ _ ih => exact ih
  | _ => rfl

theorem phase_readHeader (r : DumpReader) : r.readHeader.2.phase = r.phase := by
  unfold readHeader
  split
  · rfl
  · rfl
  · split
    · exact phase_readFields ..
    · rfl

theorem streaming_header {r : DumpReader} (start : r.phase = .start) :
    r.header.2.phase = .streaming := by
  rw [header, start]
  exact phase_readHeader { r with phase := .streaming }

/-- A reader that was asked for its header has looked for it. -/
theorem begun_header (r : DumpReader) : r.header.2.phase ≠ .start := by
  by_cases start : r.phase = .start
  · simp [streaming_header start]
  · rw [header_of_begun start]
    exact start

/-- Looking for the header fails with the source or at a line that is no field. -/
theorem malformed_of_header {r after : DumpReader} {error : DumpError} (free : r.held = none)
    (failed : r.header = (.error error, after)) :
    (∃ failure, error = .io failure) ∨ after.Malformed error := by
  unfold header at failed
  split at failed
  · rcases found : readHeader { r with phase := .streaming } with ⟨result, last⟩
    rw [found] at failed
    obtain ⟨same, rfl⟩ := Prod.mk.inj failed
    cases result with
    | ok _ => cases same
    | error flaw =>
      cases same
      unfold readHeader at found
      split at found
      · obtain ⟨same, -⟩ := Prod.mk.inj found
        cases same
        exact .inl ⟨_, rfl⟩
      · cases (Prod.mk.inj found).1
      · split at found
        · exact malformed_of_readFields (r := { r with lines := _, phase := .streaming }) free found
        · cases (Prod.mk.inj found).1
  · cases (Prod.mk.inj failed).1

/-- Only a line that was read is held back. -/
theorem held_readFields {r : DumpReader} (line : Bytes) (free : r.held = none) :
    (r.readFields line).2.held.toList.length ≤ (r.readFields line).2.lineNumber := by
  fun_induction readFields r line with
  | case5 r line _ _ fields next lines found _ _ ih => exact ih free
  | case6 r line _ _ fields next lines found _ _ =>
    have counted := Lines.number_next_of_line found
    show 1 ≤ lines.number
    omega
  | _ => simp [free]

theorem held_header {r : DumpReader} (free : r.held = none) :
    r.header.2.held.toList.length ≤ r.header.2.lineNumber := by
  unfold header
  split
  · show (readHeader _).2.held.toList.length ≤ (readHeader _).2.lineNumber
    unfold readHeader
    split
    · simp [free]
    · simp [free]
    · rename_i lines found
      split
      · exact held_readFields _ free
      · have counted := Lines.number_next_of_line found
        show 1 ≤ lines.number
        omega
  · simp [free]

end DumpReader

end LinkArchive
