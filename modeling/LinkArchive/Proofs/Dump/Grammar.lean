import LinkArchive.Dump.Reader
import Mathlib.Data.List.TakeWhile

/-!
# Line grammars

What a line of a dump says, read off all of its bars at once, and what a header line says, read off
its longest run of capital letters. The reader cuts a line at one bar after the other, and a header
line at its first delimiter: `parseLine_eq` and `parseMeta_eq` show that this comes to the same.
-/

namespace LinkArchive.Dump

/-! ### Records -/

/-- The fields of a line, which stand between its bars. -/
def fieldsOf (line : String) : List String := (line.toList.splitOn '|').map String.ofList

/-- The record that a line writes in the generic grammar. A line of one field is its own target. -/
def genericOf (line : String) : Except DumpError LinkRecord × List Warning :=
  match fieldsOf line with
  | [whole] => (.ok (.generic whole "" whole), [])
  | [source, target] => (.ok (.generic source "" target), [])
  | [source, note, target] => (.ok (.generic source note target), [])
  | _ => (.error (.tooManyFields line), [])

/-- The record that a line writes in the fixed grammar: all behind its first bar is the target. -/
def fixedOf (width : Option Nat) (requireSeparator : Bool) (number : Nat) (line : String) :
    Except DumpError LinkRecord × List Warning :=
  match fieldsOf line with
  | shortcode :: next :: more =>
    (.ok (.fixed shortcode ("|".intercalate (next :: more))),
      (width.filter (· != shortcode.length)).toList.map fun expected =>
        .shortcodeWidth number shortcode expected shortcode.length)
  | _ =>
    if requireSeparator then (.error (.missingSeparator number line), [])
    else (.ok (.fixed "" line), [.missingSeparator number line])

def recordOf (grammar : Grammar) (options : ReaderOptions) (number : Nat) (line : Bytes) :
    Except DumpError LinkRecord × List Warning :=
  match line.toText?, grammar with
  | none, _ => (.error (.invalidUtf8 number), [])
  | some text, .generic => genericOf text
  | some text, .fixed width => fixedOf width options.requireSeparator number text

theorem fieldsOf_of_splitAtBar_none {line : String} (whole : LinkRecord.splitAtBar line = none) :
    fieldsOf line = [line] := by
  have absent : '|' ∉ line.toList := by
    unfold LinkRecord.splitAtBar at whole
    split at whole
    · rename_i none
      intro member
      simpa using List.dropWhile_eq_nil_iff.mp none _ member
    · cases whole
  rw [fieldsOf, List.splitOn_eq_singleton absent]
  simp

theorem fieldsOf_of_splitAtBar_some {line first rest : String}
    (cut : LinkRecord.splitAtBar line = some (first, rest)) :
    fieldsOf line = first :: fieldsOf rest := by
  unfold LinkRecord.splitAtBar at cut
  split at cut
  · cases cut
  · rename_i bar after found
    have bar_eq : bar = '|' := by
      have stops := List.head?_dropWhile_not (· != '|') line.toList
      rw [found] at stops
      simpa using stops
    have absent : '|' ∉ line.toList.takeWhile (· != '|') := by
      intro member
      simpa using List.mem_takeWhile_imp member
    have whole := List.takeWhile_append_dropWhile (p := (· != '|')) (l := line.toList)
    rw [found, bar_eq] at whole
    obtain ⟨first_eq, rest_eq⟩ := Prod.mk.inj (Option.some.inj cut)
    rw [fieldsOf, ← whole, List.splitOn_append_cons_self_of_not_mem absent, List.map_cons,
      first_eq, ← rest_eq, fieldsOf, String.toList_ofList]

theorem fieldsOf_ne_nil (line : String) : fieldsOf line ≠ [] := by
  simp [fieldsOf, List.splitOn_ne_nil]

theorem intercalate_fieldsOf (line : String) : "|".intercalate (fieldsOf line) = line := by
  apply String.toList_inj.mp
  rw [String.toList_intercalate, fieldsOf, List.map_map]
  simp [Function.comp_def, List.intercalate_splitOn]

theorem parseText_generic (options : ReaderOptions) (number : Nat) (line : String) :
    parseText .generic options number line = genericOf line := by
  unfold parseText genericOf LinkRecord.ofGeneric?
  cases cut : LinkRecord.splitAtBar line with
  | none => rw [fieldsOf_of_splitAtBar_none cut]
  | some parts =>
    rw [fieldsOf_of_splitAtBar_some cut]
    cases cut₂ : LinkRecord.splitAtBar parts.2 with
    | none => simp only [cut₂, fieldsOf_of_splitAtBar_none cut₂]
    | some parts₂ =>
      rw [fieldsOf_of_splitAtBar_some cut₂]
      cases cut₃ : LinkRecord.splitAtBar parts₂.2 with
      | none => simp only [cut₂, cut₃, fieldsOf_of_splitAtBar_none cut₃]
      | some parts₃ =>
        rw [fieldsOf_of_splitAtBar_some cut₃]
        obtain ⟨last, more, fields⟩ := List.exists_cons_of_ne_nil (fieldsOf_ne_nil parts₃.2)
        simp only [cut₂, cut₃, fields]

theorem parseFixed_eq (width : Option Nat) (requireSeparator : Bool) (number : Nat)
    (line : String) :
    parseFixed width requireSeparator number line = fixedOf width requireSeparator number line := by
  unfold parseFixed fixedOf
  cases cut : LinkRecord.splitAtBar line with
  | none => rw [fieldsOf_of_splitAtBar_none cut]
  | some parts =>
    rw [fieldsOf_of_splitAtBar_some cut]
    obtain ⟨next, more, fields⟩ := List.exists_cons_of_ne_nil (fieldsOf_ne_nil parts.2)
    have target : "|".intercalate (next :: more) = parts.2 := by
      rw [← fields, intercalate_fieldsOf]
    simp only [fields, target]
    cases width with
    | none => rfl
    | some expected =>
      by_cases same : parts.1.length = expected
      · simp [same]
      · simp [same, Ne.symm same, Option.filter]

/-- Reading a line of the body goes by the fields between its bars. -/
theorem parseLine_eq (grammar : Grammar) (options : ReaderOptions) (number : Nat) (line : Bytes) :
    parseLine grammar options number line = recordOf grammar options number line := by
  unfold parseLine recordOf
  cases line.toText? with
  | none => rfl
  | some text =>
    cases grammar with
    | generic => exact parseText_generic options number text
    | fixed width => exact parseFixed_eq width options.requireSeparator number text

/-! ### Header fields -/

/-- The field that a header line writes behind its `#`: capital letters, then a colon, a space or a
tab, then the value behind any more spaces and tabs. -/
def namedValue? (text : List Char) : Option MetaField :=
  match text.dropWhile MetaField.isNameChar with
  | [] => none
  | delimiter :: value =>
    if MetaField.isDelimiter delimiter then
      some ⟨String.ofList (text.takeWhile MetaField.isNameChar),
        String.ofList (value.dropWhile MetaField.isPadding)⟩
    else none

def fieldOf (number : Nat) (line : Bytes) : Except DumpError MetaField :=
  match line.toText? with
  | none => .error (.invalidUtf8 number)
  | some text =>
    match namedValue? text.toList.tail with
    | none => .error (.malformedHeader text)
    | some field => .ok field

theorem not_isDelimiter_of_isNameChar {c : Char} (name : MetaField.isNameChar c = true) :
    (!MetaField.isDelimiter c) = true := by
  rw [Bool.not_eq_true']
  apply Bool.eq_false_iff.mpr
  intro delimiter
  simp only [MetaField.isDelimiter, Bool.or_eq_true, beq_iff_eq] at delimiter
  rcases delimiter with (rfl | rfl) | rfl <;> revert name <;> decide

/-- The first delimiter of a header line ends its longest run of capital letters, or else the line
is no field. -/
theorem ofText?_eq (text : String) : MetaField.ofText? text = namedValue? text.toList := by
  unfold MetaField.ofText? namedValue?
  generalize text.toList = chars
  have name : ∀ c ∈ chars.takeWhile MetaField.isNameChar, (!MetaField.isDelimiter c) = true :=
    fun c member => not_isDelimiter_of_isNameChar (List.mem_takeWhile_imp member)
  have whole := List.takeWhile_append_dropWhile (p := MetaField.isNameChar) (l := chars)
  cases behind : chars.dropWhile MetaField.isNameChar with
  | nil =>
    rw [behind, List.append_nil] at whole
    rw [whole] at name
    rw [List.dropWhile_eq_nil_iff.mpr name]
  | cons delimiter value =>
    rw [behind] at whole
    have upTo : chars.takeWhile (!MetaField.isDelimiter ·) =
        chars.takeWhile MetaField.isNameChar ++
          (delimiter :: value).takeWhile (!MetaField.isDelimiter ·) :=
      (congrArg _ whole.symm).trans (List.takeWhile_append_of_pos name)
    have behindName : chars.dropWhile (!MetaField.isDelimiter ·) =
        (delimiter :: value).dropWhile (!MetaField.isDelimiter ·) :=
      (congrArg _ whole.symm).trans (List.dropWhile_append_of_pos name)
    rw [upTo, behindName]
    by_cases ends : MetaField.isDelimiter delimiter = true
    · simp [ends]
    · have other : MetaField.isNameChar delimiter = false := by
        have stops := List.head?_dropWhile_not MetaField.isNameChar chars
        rw [behind] at stops
        simpa using stops
      dsimp only
      rw [if_neg ends]
      split
      · rfl
      · simp [ends, other]

theorem parseMeta_eq (number : Nat) (line : Bytes) :
    parseMeta number line = fieldOf number line := by
  unfold parseMeta fieldOf
  cases line.toText? with
  | none => rfl
  | some text =>
    cases value : namedValue? text.toList.tail with
    | none => simp [ofText?_eq, value]
    | some field => simp [ofText?_eq, value]

end LinkArchive.Dump
