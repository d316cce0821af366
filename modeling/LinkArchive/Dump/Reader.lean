import LinkArchive.Dump.Error
import LinkArchive.Dump.Grammar
import LinkArchive.Dump.Line

/-! Reads one link dump from a source: an optional header of `#FIELD: value` lines, then one record
a line. A bad line costs itself only; a source that fails ends the records for good. -/

namespace LinkArchive

structure ReaderOptions where
  skipBlankLines : Bool := true
  /-- A fixed-field line without a bar is an error and not a warning. -/
  requireSeparator : Bool := false

namespace Dump

def parseFixed (width : Option Nat) (requireSeparator : Bool) (number : Nat) (line : String) :
    Except DumpError LinkRecord × List Warning :=
  match LinkRecord.splitAtBar line with
  | none =>
    if requireSeparator then (.error (.missingSeparator number line), [])
    else (.ok (.fixed "" line), [.missingSeparator number line])
  | some (shortcode, target) =>
    let warnings := match width with
      | some expected =>
        if shortcode.length = expected then []
        else [.shortcodeWidth number shortcode expected shortcode.length]
      | none => []
    (.ok (.fixed shortcode target), warnings)

def parseText (grammar : Grammar) (options : ReaderOptions) (number : Nat) (line : String) :
    Except DumpError LinkRecord × List Warning :=
  match grammar with
  | .fixed width => parseFixed width options.requireSeparator number line
  | .generic =>
    match LinkRecord.ofGeneric? line with
    | some record => (.ok record, [])
    | none => (.error (.tooManyFields line), [])

def parseLine (grammar : Grammar) (options : ReaderOptions) (number : Nat) (line : Bytes) :
    Except DumpError LinkRecord × List Warning :=
  match line.toText? with
  | none => (.error (.invalidUtf8 number), [])
  | some text => parseText grammar options number text

def parseMeta (number : Nat) (line : Bytes) : Except DumpError MetaField :=
  match line.toText? with
  | none => .error (.invalidUtf8 number)
  | some text =>
    match MetaField.ofText? (String.ofList text.toList.tail) with
    | none => .error (.malformedHeader text)
    | some field => .ok field

def isMetaLine (line : Bytes) : Bool := line.head? == some 35

end Dump

inductive Phase where
  | start
  | streaming
  | exhausted
  deriving DecidableEq, Repr

structure DumpReader where
  lines : Dump.Lines
  grammar : Grammar := .generic
  options : ReaderOptions := {}
  phase : Phase := .start
  fields : List MetaField := []
  /-- A line that was read while looking for the header but is no part of it. -/
  held : Option Bytes := none

namespace DumpReader

open Dump

def ofSource (source : Source) (grammar : Grammar) (options : ReaderOptions) : DumpReader where
  lines := { source }
  grammar
  options

def lineNumber (r : DumpReader) : Nat := r.lines.number

def weight (r : DumpReader) : Nat := r.lines.source.weight + if r.held.isSome then 1 else 0

/-- One blank line after the fields belongs to the header. -/
def readFields (r : DumpReader) (line : Bytes) : Except DumpError Unit × DumpReader :=
  match parseMeta r.lineNumber line with
  | .error error => (.error error, r)
  | .ok field =>
    let fields := r.fields ++ [field]
    match _found : r.lines.next with
    | (.failed error, lines) => (.error (.io error), { r with fields, lines })
    | (.ended, lines) => (.ok (), { r with fields, lines })
    | (.line next, lines) =>
      if next.isEmpty then (.ok (), { r with fields, lines })
      else if isMetaLine next then readFields { r with fields, lines } next
      else (.ok (), { r with fields, lines, held := some next })
termination_by r.lines.source.weight
decreasing_by
  have bound := r.lines.weight_next
  simp_all

def readHeader (r : DumpReader) : Except DumpError Unit × DumpReader :=
  match r.lines.next with
  | (.failed error, lines) => (.error (.io error), { r with lines })
  | (.ended, lines) => (.ok (), { r with lines })
  | (.line line, lines) =>
    if isMetaLine line then readFields { r with lines } line
    else (.ok (), { r with lines, held := some line })

/-- Fields are looked for once. After a failure the fields before it are returned. -/
def header (r : DumpReader) : Except DumpError (List MetaField) × DumpReader :=
  match r.phase with
  | .start =>
    let (result, after) := readHeader { r with phase := .streaming }
    (result.map fun _ => after.fields, after)
  | _ => (.ok r.fields, r)

def nextLine (r : DumpReader) : LineResult × DumpReader :=
  match r.held with
  | some line => (.line line, { r with held := none })
  | none =>
    let (result, lines) := r.lines.next
    (result, { r with lines })

theorem weight_nextLine (r : DumpReader) :
    r.nextLine.2.weight ≤ r.weight ∧ (r.nextLine.1 ≠ .ended → r.nextLine.2.weight < r.weight) := by
  have bound := r.lines.weight_next
  unfold nextLine weight
  split <;> simp_all

def readRecord (r : DumpReader) :
    Except DumpError (Option LinkRecord) × List Warning × DumpReader :=
  match _found : r.nextLine with
  | (.ended, after) => (.ok none, [], { after with phase := .exhausted })
  | (.failed error, after) => (.error (.io error), [], { after with phase := .exhausted })
  | (.line line, after) =>
    if line.isEmpty && r.options.skipBlankLines then readRecord after
    else
      let (result, warnings) := parseLine r.grammar r.options after.lineNumber line
      (result.map some, warnings, after)
termination_by r.weight
decreasing_by
  have bound := r.weight_nextLine
  simp_all

/-- Unless the header was asked for before, it is looked for first. An error other than a failing
source concerns one line, and reading may go on with the next. -/
def read (r : DumpReader) : Except DumpError (Option LinkRecord) × List Warning × DumpReader :=
  match r.phase with
  | .exhausted => (.ok none, [], r)
  | .streaming => r.readRecord
  | .start =>
    match r.header with
    | (.error error, after) => (.error error, [], after)
    | (.ok _, after) => after.readRecord

/-! ### Reading to the end -/

theorem weight_readFields (r : DumpReader) (line : Bytes) :
    (r.readFields line).2.weight ≤ r.weight := by
  fun_induction readFields r line with
  | case1 => simp
  | case2 r _ _ _ _ _ _ found => have := r.lines.weight_next; simp_all [weight]
  | case3 r _ _ _ _ _ found => have := r.lines.weight_next; simp_all [weight]
  | case4 r _ _ _ _ _ _ found => have := r.lines.weight_next; simp_all [weight]
  | case5 r _ _ _ _ _ _ found _ _ ih => have := r.lines.weight_next; simp_all [weight]; omega
  | case6 r _ _ _ _ _ _ found => have := r.lines.weight_next; simp_all [weight]; omega

theorem weight_readHeader (r : DumpReader) :
    r.readHeader.2.weight ≤ r.weight ∧
      (∀ error, r.readHeader.1 = .error error → r.readHeader.2.weight < r.weight) := by
  have bound := r.lines.weight_next
  unfold readHeader
  split
  · simp_all [weight]
  · simp_all [weight]
  · rename_i line lines found
    simp only [found, ne_eq, reduceCtorEq, not_false_eq_true, forall_const] at bound
    split
    · have fields := weight_readFields { r with lines } line
      simp only [weight] at fields ⊢
      exact ⟨by omega, fun _ _ => by omega⟩
    · simp only [weight, Option.isSome_some, if_true]
      exact ⟨by omega, by simp⟩

theorem weight_header (r : DumpReader) :
    r.header.2.weight ≤ r.weight ∧
      (∀ error, r.header.1 = .error error → r.header.2.weight < r.weight) := by
  have bound := weight_readHeader { r with phase := .streaming }
  unfold header
  split
  · cases found : readHeader { r with phase := .streaming } with
    | mk result after =>
      rw [found] at bound
      cases result <;> simp_all [weight, Except.map]
  · simp

theorem weight_readRecord (r : DumpReader) :
    r.readRecord.2.2.weight ≤ r.weight ∧
      (r.readRecord.1 ≠ .ok none → r.readRecord.2.2.weight < r.weight) := by
  fun_induction readRecord r with
  | case1 r after found => have := r.weight_nextLine; simp_all [weight]
  | case2 r error after found => have := r.weight_nextLine; simp_all [weight]
  | case3 r _ after found _ ih => have := r.weight_nextLine; simp_all; omega
  | case4 r _ after found => have := r.weight_nextLine; simp_all

theorem weight_read (r : DumpReader) (more : r.read.1 ≠ .ok none) :
    r.read.2.2.weight < r.weight := by
  have bound := r.weight_header
  unfold read at more ⊢
  split at more
  · simp at more
  · exact (weight_readRecord r).2 more
  · split at more
    · rename_i found
      simp_all
    · rename_i found
      have record := (weight_readRecord _).2 more
      simp_all
      omega

/-- A record or a bad line, with its number and the warnings it raised. -/
structure Item where
  number : Nat
  result : Except DumpError LinkRecord
  warnings : List Warning := []

def readAll (r : DumpReader) : List Item × DumpReader :=
  match _found : r.read with
  | (.ok none, _, after) => ([], after)
  | (.ok (some record), warnings, after) =>
    let (items, last) := readAll after
    (⟨after.lineNumber, .ok record, warnings⟩ :: items, last)
  | (.error error, warnings, after) =>
    let (items, last) := readAll after
    (⟨after.lineNumber, .error error, warnings⟩ :: items, last)
termination_by r.weight
decreasing_by
  all_goals
    have bound := r.weight_read (by simp [_found])
    simpa [_found] using bound

end DumpReader

end LinkArchive
