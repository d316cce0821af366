import LinkArchive.Proofs.Dump.Reading
import LinkArchive.Proofs.Text.Utf8

/-!
# Dumps as they are written

`Dump.render` writes header fields, a blank line and records, a line each. A reader gives back just
these fields and records, whatever text they hold: `DumpReader.reads_render`.
-/

namespace LinkArchive

/-- A text that stays on its line. -/
structure OneLine (text : String) : Prop where
  lf_absent : '\n' ∉ text.toList
  cr_absent : '\r' ∉ text.toList

theorem oneLine_append {first second : String} (h₁ : OneLine first) (h₂ : OneLine second) :
    OneLine (first ++ second) where
  lf_absent := by simp [h₁.lf_absent, h₂.lf_absent]
  cr_absent := by simp [h₁.cr_absent, h₂.cr_absent]

/-- A field whose name and value are those that its written form shows. -/
structure MetaField.Writable (m : MetaField) : Prop where
  name : ∀ c ∈ m.field.toList, MetaField.isNameChar c = true
  value : OneLine m.value
  unpadded : ∀ c ∈ m.value.toList.head?, MetaField.isPadding c = false

/-- A record of a grammar that has no bar or end of line where its written form would end a part of
it there. -/
inductive LinkRecord.Writable : Grammar → LinkRecord → Prop where
  | generic {source note target : String}
      (parts : ∀ part ∈ [source, note, target], '|' ∉ part.toList ∧ OneLine part) :
      Writable .generic (.generic source note target)
  | fixed {shortcode target : String} (bar_absent : '|' ∉ shortcode.toList)
      (shortcode_oneLine : OneLine shortcode) (target_oneLine : OneLine target) :
      Writable (.fixed none) (.fixed shortcode target)

namespace Dump

def renderLines (lines : List String) : String := String.join (lines.map (· ++ "\n"))

def render (fields : List MetaField) (records : List LinkRecord) : String :=
  renderLines (fields.map MetaField.render) ++ "\n" ++ renderLines (records.map LinkRecord.render)

/-! ### Lines -/

theorem not_isTerminator_of_oneLine {text : String} (h : OneLine text) :
    ∀ byte ∈ Bytes.ofText text, (!isTerminator byte) = true := by
  intro byte member
  rw [Bool.not_eq_true']
  apply Bool.eq_false_iff.mpr
  intro terminator
  simp only [isTerminator, Bool.or_eq_true, beq_iff_eq] at terminator
  rcases terminator with rfl | rfl
  · exact h.lf_absent (Bytes.mem_ofText_of_ascii member (by decide))
  · exact h.cr_absent (Bytes.mem_ofText_of_ascii member (by decide))

theorem splitLines_of_lf {line : Bytes} (unended : ∀ byte ∈ line, (!isTerminator byte) = true)
    (rest : Bytes) : splitLines (line ++ lf :: rest) = line :: splitLines rest := by
  rw [splitLines_of_terminator unended rfl, show (lf == cr) = false from rfl, dropLf_false]

theorem ofText_lf : Bytes.ofText "\n" = [lf] := by
  rw [Bytes.ofText_eq_flatMap]
  rfl

theorem splitLines_renderLines {lines : List String} (oneLine : ∀ line ∈ lines, OneLine line)
    (rest : Bytes) :
    splitLines (Bytes.ofText (renderLines lines) ++ rest) =
      lines.map Bytes.ofText ++ splitLines rest := by
  induction lines with
  | nil => simp [renderLines, Bytes.ofText_eq_flatMap]
  | cons line lines ih =>
    obtain ⟨first, others⟩ := List.forall_mem_cons.mp oneLine
    have bytes : Bytes.ofText (renderLines (line :: lines)) ++ rest =
        Bytes.ofText line ++ lf :: (Bytes.ofText (renderLines lines) ++ rest) := by
      simp [renderLines, Bytes.ofText_append, ofText_lf]
    rw [bytes, splitLines_of_lf (not_isTerminator_of_oneLine first), ih others]
    rfl

/-! ### Header fields -/

theorem oneLine_field {m : MetaField} (h : m.Writable) : OneLine m.render := by
  have name : ∀ c, MetaField.isNameChar c = false → c ∉ m.field.toList := by
    intro c other member
    rw [h.name c member] at other
    cases other
  have field : OneLine m.field := ⟨name _ (by decide), name _ (by decide)⟩
  have marker : OneLine "#" := ⟨by decide, by decide⟩
  have colon : OneLine ": " := ⟨by decide, by decide⟩
  exact oneLine_append (oneLine_append (oneLine_append marker field) colon) h.value

theorem isMetaLine_field (m : MetaField) : isMetaLine (Bytes.ofText m.render) = true := by
  have text : m.render = "#" ++ (m.field ++ ": " ++ m.value) := by
    simp only [MetaField.render, String.append_assoc]
  rw [text, Bytes.ofText_append, Bytes.ofText_eq_flatMap "#"]
  rfl

theorem fieldOf_field {m : MetaField} (h : m.Writable) (number : Nat) :
    fieldOf number (Bytes.ofText m.render) = .ok m := by
  have text : m.render.toList.tail = m.field.toList ++ ':' :: ' ' :: m.value.toList := by
    simp [MetaField.render]
  have value : (' ' :: m.value.toList).dropWhile MetaField.isPadding = m.value.toList := by
    rw [List.dropWhile_cons_of_pos (by decide)]
    cases chars : m.value.toList with
    | nil => rfl
    | cons c _ =>
      have unpadded := h.unpadded c (by simp [chars])
      rw [List.dropWhile_cons_of_neg (by simp [unpadded])]
  have named : namedValue? m.render.toList.tail = some m := by
    rw [text, namedValue?, List.dropWhile_append_of_pos h.name,
      List.takeWhile_append_of_pos h.name, List.dropWhile_cons_of_neg (by decide),
      List.takeWhile_cons_of_neg (by decide), List.append_nil]
    dsimp only
    rw [if_pos (by decide), value, String.ofList_toList, String.ofList_toList]
  rw [fieldOf, Bytes.toText?_ofText]
  simp only [named]

open DumpReader in
/-- Written fields and the blank line after them are all of the header. -/
theorem fieldsFrom_written {field : MetaField} {more : List MetaField}
    (written : ∀ m ∈ field :: more, m.Writable) (before : List MetaField) (number : Nat)
    (body : List Bytes) :
    fieldsFrom none before number (Bytes.ofText field.render)
        (more.map (fun m => Bytes.ofText m.render) ++ [] :: body) =
      ⟨.ok (), before ++ field :: more, number + more.length + 1, body,
        number + more.length + 1⟩ := by
  obtain ⟨first, others⟩ := List.forall_mem_cons.mp written
  induction more generalizing before number field with
  | nil =>
    rw [List.map_nil, List.nil_append, fieldsFrom, fieldOf_field first]
    rfl
  | cons next more ih =>
    obtain ⟨second, _⟩ := List.forall_mem_cons.mp others
    have isMeta := isMetaLine_field next
    have text : (Bytes.ofText next.render).isEmpty = false := by
      cases bytes : Bytes.ofText next.render with
      | nil => rw [bytes] at isMeta; cases isMeta
      | cons => rfl
    rw [List.map_cons, List.cons_append, fieldsFrom, fieldOf_field first]
    dsimp only
    rw [text, if_neg Bool.false_ne_true, if_pos isMeta, ih others _ _ second (by simp_all)]
    simp [Nat.add_assoc, Nat.add_comm 1]

open DumpReader in
theorem headerEnd_written {field : MetaField} {more : List MetaField}
    (written : ∀ m ∈ field :: more, m.Writable) (body : List Bytes) :
    headerEnd none ((field :: more).map (fun m => Bytes.ofText m.render) ++ [] :: body) =
      ⟨.ok (), field :: more, 1 + more.length + 1, body, 1 + more.length + 1⟩ := by
  rw [List.map_cons, List.cons_append, headerEnd, if_pos (isMetaLine_field field),
    fieldsFrom_written written]
  rfl

/-! ### Records -/

theorem fieldsOf_of_barless {text : String} (absent : '|' ∉ text.toList) :
    fieldsOf text = [text] := by
  rw [fieldsOf, List.splitOn_eq_singleton absent]
  simp

theorem fieldsOf_append_bar {first : String} (absent : '|' ∉ first.toList) (rest : String) :
    fieldsOf (first ++ "|" ++ rest) = first :: fieldsOf rest := by
  have text : (first ++ "|" ++ rest).toList = first.toList ++ '|' :: rest.toList := by simp
  rw [fieldsOf, text, List.splitOn_append_cons_self_of_not_mem absent, List.map_cons,
    String.ofList_toList, fieldsOf]

theorem render_of_unnoted (source target : String) :
    (LinkRecord.generic source "" target).render = source ++ "|" ++ target := rfl

theorem render_of_noted {note : String} (noted : note ≠ "") (source target : String) :
    (LinkRecord.generic source note target).render =
      source ++ "|" ++ (note ++ "|" ++ target) := by
  simp [LinkRecord.render, noted, String.append_assoc]

theorem oneLine_record {grammar : Grammar} {record : LinkRecord} (h : record.Writable grammar) :
    OneLine record.render := by
  have bar : OneLine "|" := ⟨by decide, by decide⟩
  cases h with
  | @generic source note target parts =>
    simp only [List.forall_mem_cons] at parts
    obtain ⟨⟨-, source_oneLine⟩, ⟨-, note_oneLine⟩, ⟨-, target_oneLine⟩, -⟩ := parts
    by_cases noted : note = ""
    · rw [noted, render_of_unnoted]
      exact oneLine_append (oneLine_append source_oneLine bar) target_oneLine
    · rw [render_of_noted noted]
      exact oneLine_append (oneLine_append source_oneLine bar)
        (oneLine_append (oneLine_append note_oneLine bar) target_oneLine)
  | fixed _ shortcode_oneLine target_oneLine =>
    exact oneLine_append (oneLine_append shortcode_oneLine bar) target_oneLine

theorem isEmpty_record (record : LinkRecord) : (Bytes.ofText record.render).isEmpty = false := by
  have bar : '|' ∈ record.render.toList := by
    cases record with
    | generic source note target =>
      by_cases noted : note = ""
      · simp [noted, render_of_unnoted]
      · simp [render_of_noted noted]
    | fixed shortcode target => simp [LinkRecord.render]
  rw [List.isEmpty_eq_false_iff, Bytes.ofText_eq_flatMap]
  intro none
  exact String.utf8EncodeChar_ne_nil (List.flatMap_eq_nil_iff.mp none '|' bar)

theorem recordOf_record {grammar : Grammar} {record : LinkRecord} (h : record.Writable grammar)
    (options : ReaderOptions) (number : Nat) :
    recordOf grammar options number (Bytes.ofText record.render) = (.ok record, []) := by
  cases h with
  | @generic source note target parts =>
    simp only [List.forall_mem_cons] at parts
    obtain ⟨⟨source_bar, -⟩, ⟨note_bar, -⟩, ⟨target_bar, -⟩, -⟩ := parts
    simp only [recordOf, Bytes.toText?_ofText, genericOf]
    by_cases noted : note = ""
    · rw [noted, render_of_unnoted, fieldsOf_append_bar source_bar, fieldsOf_of_barless target_bar]
    · rw [render_of_noted noted, fieldsOf_append_bar source_bar, fieldsOf_append_bar note_bar,
        fieldsOf_of_barless target_bar]
  | @fixed shortcode target bar_absent =>
    obtain ⟨next, more, fields⟩ := List.exists_cons_of_ne_nil (fieldsOf_ne_nil target)
    have whole : "|".intercalate (next :: more) = target := by rw [← fields, intercalate_fieldsOf]
    simp only [recordOf, Bytes.toText?_ofText, fixedOf, LinkRecord.render,
      fieldsOf_append_bar bar_absent, fields, whole]
    rfl

/-! ### Whole dumps -/

theorem linesOf_render {grammar : Grammar} {fields : List MetaField} {records : List LinkRecord}
    (named : ∀ field ∈ fields, field.Writable)
    (written : ∀ record ∈ records, record.Writable grammar) :
    linesOf (Bytes.ofText (render fields records)) =
      fields.map (fun m => Bytes.ofText m.render) ++
        [] :: records.map fun record => Bytes.ofText record.render := by
  have fieldLines : ∀ line ∈ fields.map MetaField.render, OneLine line := by
    intro line member
    obtain ⟨field, present, rfl⟩ := List.mem_map.mp member
    exact oneLine_field (named field present)
  have recordLines : ∀ line ∈ records.map LinkRecord.render, OneLine line := by
    intro line member
    obtain ⟨record, present, rfl⟩ := List.mem_map.mp member
    exact oneLine_record (written record present)
  have body := splitLines_renderLines recordLines []
  have blank (rest : Bytes) : splitLines ([lf] ++ rest) = [] :: splitLines rest :=
    splitLines_of_lf (List.forall_mem_nil _) rest
  have lines : splitLines (Bytes.ofText (render fields records)) =
      fields.map (fun m => Bytes.ofText m.render) ++
        [] :: records.map fun record => Bytes.ofText record.render := by
    rw [List.append_nil] at body
    rw [render, Bytes.ofText_append, Bytes.ofText_append, List.append_assoc,
      splitLines_renderLines fieldLines, ofText_lf, blank, body]
    simp [splitLines, cutLines, Function.comp_def]
  rw [linesOf, lines]
  cases fields with
  | nil => rfl
  | cons field others =>
    have marked := isMetaLine_field field
    have unmarked : unmark (Bytes.ofText field.render) = Bytes.ofText field.render := by
      unfold unmark
      split
      · rename_i begins
        rw [begins] at marked
        cases marked
      · rfl
    rw [List.map_cons, List.cons_append, List.modifyHead_cons, unmarked]

end Dump

namespace DumpReader

open Dump

/-! ### Reads -/

/-- What so many reads give, one after the other. -/
def reads (r : DumpReader) : Nat → List (Except DumpError (Option LinkRecord) × List Warning)
  | 0 => []
  | count + 1 =>
    let (result, warnings, after) := r.read
    (result, warnings) :: after.reads count

theorem reads_congr {r other : DumpReader} (same : r.read = other.read) (count : Nat) :
    r.reads count = other.reads count := by
  cases count with
  | zero => rfl
  | succ count => simp only [reads, same]

theorem reads_of_exhausted {r : DumpReader} (exhausted : r.phase = .exhausted) (count : Nat) :
    r.reads count = List.replicate count (.ok none, []) := by
  have read : r.read = (.ok none, [], r) := by rw [DumpReader.read, exhausted]
  induction count with
  | zero => rfl
  | succ count ih =>
    rw [reads, read]
    dsimp only
    rw [ih]
    rfl

variable {grammar : Grammar} {fields : List MetaField} {used : Nat}

/-- Written records are read one by one, and there is nothing behind them. -/
theorem reads_of_written {r : DumpReader} {records : List LinkRecord}
    (written : ∀ record ∈ records, record.Writable grammar)
    (h : r.Ahead grammar {} fields used (records.map fun record => Bytes.ofText record.render) none)
    (more : Nat) :
    r.reads (records.length + more) =
      records.map (fun record => (.ok (some record), [])) ++
        List.replicate more (.ok none, []) := by
  induction records generalizing r used with
  | nil =>
    rw [List.length_nil, Nat.zero_add, List.map_nil, List.nil_append]
    cases more with
    | zero => rfl
    | succ more =>
      obtain ⟨after, found, -⟩ := nextLine_of_ahead_nil h
      rw [reads, read_of_streaming h.streaming, readRecord_of_stop found]
      dsimp only
      rw [reads_of_exhausted rfl]
      rfl
  | cons record records ih =>
    obtain ⟨first, others⟩ := List.forall_mem_cons.mp written
    obtain ⟨after, found, number, later⟩ := nextLine_of_ahead_cons h
    have kept : ((Bytes.ofText record.render).isEmpty && r.options.skipBlankLines) = false := by
      rw [isEmpty_record, Bool.false_and]
    have read : r.read = (.ok (some record), [], after) := by
      rw [read_of_streaming h.streaming, readRecord_of_line found kept, parseLine_eq, h.grammar_eq,
        recordOf_record first]
      rfl
    rw [List.length_cons, Nat.add_right_comm, reads, read]
    dsimp only
    rw [ih others later]
    rfl

/-- A blank line before the records is passed over. -/
theorem reads_of_blank {r : DumpReader} {ahead : List Bytes} {failure : Option ReadError}
    (h : r.Ahead grammar {} fields used ([] :: ahead) failure) :
    ∃ after : DumpReader, after.Ahead grammar {} fields (used + 1) ahead failure ∧
      ∀ count, r.reads count = after.reads count := by
  obtain ⟨after, found, number, later⟩ := nextLine_of_ahead_cons h
  refine ⟨after, later, reads_congr ?_⟩
  rw [read_of_streaming h.streaming, read_of_streaming later.streaming]
  apply readRecord_of_skipped found
  rw [h.options_eq]
  rfl

/-- Whatever fields and records are written, a reader gives the fields, then the records in order,
and nothing after them. -/
theorem reads_render {source : Source} {capacity : Nat} {grammar : Grammar}
    {fields : List MetaField} {records : List LinkRecord}
    (named : ∀ field ∈ fields, field.Writable)
    (written : ∀ record ∈ records, record.Writable grammar)
    (delivers : source.Delivers (Bytes.ofText (render fields records))) (room : 1 ≤ capacity) :
    ∃ headed, (ofSource (source.buffered capacity) grammar {}).header = (.ok fields, headed) ∧
      ∀ more, headed.reads (records.length + more) =
        records.map (fun record => (.ok (some record), [])) ++
          List.replicate more (.ok none, []) := by
  have coming := Lines.ahead_of_readToEnd (delivers.readToEnd_buffered room)
  rw [linesOf_render named written] at coming
  obtain ⟨headed, found, -, -, -, reached⟩ := header_of_ahead coming grammar {}
  cases fields with
  | nil =>
    -- without a header the blank line is held, and passed over by the first read
    obtain ⟨after, later, same⟩ := reads_of_blank (reached nofun)
    refine ⟨headed, found, ?_⟩
    intro more
    rw [same]
    exact reads_of_written written later more
  | cons field others =>
    rw [headerEnd_written named] at found reached
    exact ⟨headed, found, reads_of_written written (reached nofun)⟩

/-- Fields and records that look like other lines, torn apart by the deliveries. -/
theorem reads_render_of_deceptive_dump :
    let fields : List MetaField := [⟨"FORMAT", "BEACON"⟩, ⟨"", ""⟩]
    let records : List LinkRecord := [.fixed "#A: " "x|y", .fixed "" ""]
    let first := Bytes.ofText "#FORMAT: BEACON\n#: \n"
    let second := Bytes.ofText "\n#A: |x|y\n|\n"
    let torn : Source := [.chunk first, .failure (.fault { kind := .interrupted }), .chunk second]
    (∀ field ∈ fields, field.Writable) ∧
      (∀ record ∈ records, record.Writable (.fixed none)) ∧
      torn.Delivers (Bytes.ofText (render fields records)) ∧ 1 ≤ 3 ∧
      ∃ headed, (ofSource (torn.buffered 3) (.fixed none) {}).header = (.ok fields, headed) ∧
        ∀ more, headed.reads (records.length + more) =
          records.map (fun record => (.ok (some record), [])) ++
            List.replicate more (.ok none, []) := by
  intro fields records first second torn
  have format : MetaField.Writable ⟨"FORMAT", "BEACON"⟩ := by
    refine ⟨List.all_eq_true.mp (by decide), ⟨by decide, by decide⟩, ?_⟩
    intro c first
    obtain rfl : 'B' = c := Option.some.inj first
    rfl
  have empty : MetaField.Writable ⟨"", ""⟩ := ⟨nofun, ⟨by decide, by decide⟩, nofun⟩
  have named : ∀ field ∈ fields, field.Writable := by
    simp only [fields, List.forall_mem_cons]
    exact ⟨format, empty, List.forall_mem_nil _⟩
  have written : ∀ record ∈ records, record.Writable (.fixed none) := by
    simp only [records, List.forall_mem_cons]
    refine ⟨.fixed ?_ ⟨?_, ?_⟩ ⟨?_, ?_⟩, .fixed ?_ ⟨?_, ?_⟩ ⟨?_, ?_⟩, List.forall_mem_nil _⟩ <;>
      decide
  have text : Bytes.ofText (render fields records) = first ++ (second ++ []) := by
    rw [List.append_nil, ← Bytes.ofText_append]
    rfl
  have delivers : torn.Delivers (Bytes.ofText (render fields records)) := by
    rw [text]
    exact .chunk (by decide +kernel) (.interruption rfl (.chunk (by decide +kernel) .done))
  exact ⟨named, written, delivers, by decide,
    reads_render named written delivers (by decide)⟩

end DumpReader

end LinkArchive
