import LinkArchive.Proofs.Dump.LineEnds
import LinkArchive.Proofs.Dump.Told

/-!
# Byte-order marks

A mark at the start of a dump makes no difference, unless nothing follows it: then it stands for a
blank line, `DumpReader.answers_of_mark`. A line is passed on without a mark of its own only where
nothing came before it, or nothing but what failures cut off: `DumpReader.verbatim_of_answers`.
-/

namespace LinkArchive

namespace Dump

/-! ### The lines behind a mark -/

variable {bytes : Bytes}

theorem splitLines_append {text : Bytes} (plain : ∀ byte ∈ text, (!isTerminator byte) = true)
    (nonempty : bytes ≠ []) :
    splitLines (text ++ bytes) = (splitLines bytes).modifyHead (text ++ ·) := by
  have left : (text ++ bytes).dropWhile (!isTerminator ·) = bytes.dropWhile (!isTerminator ·) :=
    List.dropWhile_append_of_pos plain
  cases found : bytes.dropWhile (!isTerminator ·) with
  | nil =>
    rw [splitLines_of_unended found, splitLines_of_unended (left.trans found)]
    simp [nonempty]
  | cons terminator more =>
    rw [splitLines_of_ended found, splitLines_of_ended (left.trans found),
      List.takeWhile_append_of_pos plain]
    rfl

theorem isPrefix_of_splitLines {line : Bytes} {lines : List Bytes}
    (split : splitLines bytes = line :: lines) : line <+: bytes := by
  cases found : bytes.dropWhile (!isTerminator ·) with
  | nil =>
    rw [splitLines_of_unended found] at split
    split at split
    · cases split
    · obtain ⟨rfl, -⟩ := List.cons.inj split
      exact List.prefix_refl _
  | cons terminator more =>
    rw [splitLines_of_ended found] at split
    obtain ⟨rfl, -⟩ := List.cons.inj split
    exact List.takeWhile_prefix _

theorem linesOf_of_unmarked (plain : ¬byteOrderMark <+: bytes) :
    linesOf bytes = splitLines bytes := by
  rw [linesOf]
  cases split : splitLines bytes with
  | nil => rfl
  | cons line lines =>
    rw [List.modifyHead_cons, ← dropMark_eq_unmark]
    rcases Lines.dropMark_cases line with same | ⟨rest, rfl, -⟩
    · rw [same]
    · exact absurd ((List.prefix_append _ _).trans (isPrefix_of_splitLines split)) plain

/-- Behind a mark are the same lines as without it. A mark alone is a blank line. -/
theorem linesOf_mark (plain : ¬byteOrderMark <+: bytes) :
    linesOf (byteOrderMark ++ bytes) = linesOf (if bytes = [] then [lf] else bytes) := by
  by_cases nothing : bytes = []
  · subst nothing
    rfl
  · have within : byteOrderMark.all (!isTerminator ·) = true := by decide
    rw [if_neg nothing, linesOf_of_unmarked plain, linesOf,
      splitLines_append (List.all_eq_true.mp within) nothing, List.modifyHead_modifyHead]
    exact congrFun List.modifyHead_id (splitLines bytes)

end Dump

namespace DumpReader

open Dump

/-- A mark before some bytes changes no answer. Before nothing it is read as a blank line. -/
theorem answers_of_mark {bytes : Bytes} (plain : ¬byteOrderMark <+: bytes) {source other : Source}
    {capacity room : Nat} (delivers : source.Delivers (byteOrderMark ++ bytes))
    (delivers' : other.Delivers (if bytes = [] then [lf] else bytes)) (spacious : 1 ≤ capacity)
    (spacious' : 1 ≤ room) (grammar : Grammar) (options : ReaderOptions) :
    let r := ofSource (source.buffered capacity) grammar options
    let s := ofSource (other.buffered room) grammar options
    r.reading = s.reading ∧ ∀ calls, (r.answers calls).1 = (s.answers calls).1 := by
  intro r s
  have data := delivers.readToEnd_buffered spacious
  have data' := delivers'.readToEnd_buffered spacious'
  have same := linesOf_mark plain
  constructor
  · rw [reading_of_readToEnd data, reading_of_readToEnd data']
    simp only [Reading.ofBytes, same]
  · have coming := Lines.ahead_of_readToEnd data
    rw [same] at coming
    exact answers_of_same_lines coming (Lines.ahead_of_readToEnd data') grammar options

/-- The mark is torn apart by the deliveries, and a blank line follows it. -/
theorem answers_of_torn_mark :
    let bytes := Bytes.ofText "\n#A: 1\nx|y"
    let source : Source := [.chunk [0xef], .failure (.fault { kind := .interrupted }),
      .chunk ([0xbb, 0xbf] ++ bytes)]
    let other : Source := [.chunk bytes]
    let r := ofSource (source.buffered 2) (.fixed (some 1)) {}
    let s := ofSource (other.buffered 8192) (.fixed (some 1)) {}
    ¬byteOrderMark <+: bytes ∧ source.Delivers (byteOrderMark ++ bytes) ∧
      other.Delivers (if bytes = [] then [lf] else bytes) ∧ 1 ≤ 2 ∧ 1 ≤ 8192 ∧
      r.reading = s.reading ∧ ∀ calls, (r.answers calls).1 = (s.answers calls).1 := by
  intro bytes source other r s
  have plain : ¬byteOrderMark <+: bytes := by decide +kernel
  have nonempty : bytes ≠ [] := by decide +kernel
  have delivers : source.Delivers (byteOrderMark ++ bytes) := by
    rw [show byteOrderMark ++ bytes = [0xef] ++ (([0xbb, 0xbf] ++ bytes) ++ []) by simp; rfl]
    exact .chunk (by decide) (.interruption rfl (.chunk (by simp) .done))
  have delivers' : other.Delivers (if bytes = [] then [lf] else bytes) := by
    rw [if_neg nonempty, ← List.append_nil bytes]
    exact .chunk nonempty .done
  exact ⟨plain, delivers, delivers', by decide, by decide,
    answers_of_mark plain delivers delivers' (by decide) (by decide) _ _⟩

/-- A mark alone gives a record where nothing gives none. -/
theorem answers_of_mark_alone :
    let options : ReaderOptions := { skipBlankLines := false }
    ((ofSource [.chunk byteOrderMark] .generic options).answers [.read]).1 =
        [.record (.ok (some (.generic "" "" ""))) [] 1] ∧
      ((ofSource [] .generic options).answers [.read]).1 = [.record (.ok none) [] 0] := by
  decide +kernel

/-! ### Marks within the data -/

/-- Every line is passed on as the source delivers it, whatever fails or ends there, and all answers
tell of these lines. Only a mark at the start of the first line is left out, and all that came
before that line is lost to failures. -/
theorem verbatim_of_answers (source : Source) (grammar : Grammar) (options : ReaderOptions) :
    (∀ count, ∃ stretches : List Stretch,
      stretches.map Stretch.result = (({ source } : Lines).reads count).1 ∧
        Passes source stretches (({ source } : Lines).reads count).2.source) ∧
    ∀ calls, ∃ stretches : List Stretch,
      Passes source stretches ((ofSource source grammar options).answers calls).2.lines.source ∧
        ∀ answer ∈ ((ofSource source grammar options).answers calls).1,
          answer.Tells grammar options (stretches.filterMap (·.result.line?)) := by
  refine ⟨Lines.passes_reads source, ?_⟩
  intro calls
  obtain ⟨given, ⟨count, lines, last⟩, told⟩ := told_of_answers source grammar options calls
  obtain ⟨stretches, results, passes⟩ := Lines.passes_reads source count
  have given_eq : stretches.filterMap (·.result.line?) = given := by
    rw [lines, ← results, List.filterMap_map]
    rfl
  rw [last]
  refine ⟨stretches, passes, ?_⟩
  rw [given_eq]
  exact told

/-- A line loses its mark behind a part of a line that a failure cut off. -/
theorem answers_of_mark_behind_failure :
    let error : ReadError := .fault { kind := .other, text := some "boom" }
    let line := byteOrderMark ++ Bytes.ofText "x|y"
    let source : Source := [.chunk (Bytes.ofText "ab"), .failure error, .chunk (line ++ [lf])]
    ¬byteOrderMark <+: source.data ∧
      recordOf .generic {} 1 line = (.ok (.generic "\ufeffx" "" "y"), []) ∧
      ((ofSource source .generic {}).answers [.header, .read]).1 =
        [.fields (.error (.io error)), .record (.ok (some (.generic "x" "" "y"))) [] 1] := by
  decide +kernel

end DumpReader

end LinkArchive
