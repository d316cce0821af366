import LinkArchive.Proofs.Release.Metadata.Fields
import LinkArchive.Proofs.Release.Metadata.Values

/-!
# Documents that are no objects

Of all documents that are no object, only arrays can be release metadata: the elements are the
values of the first fields, in the order of these: `ofJson_eq_ok_iff_lists`.
-/

namespace LinkArchive.ReleaseMetadata

open Json

variable {cut : Bool} {rest left : Bytes} {elements : List Json.Value} {m result : ReleaseMetadata}

/-- A record that holds the elements of an array in its first fields, and nothing in the others. -/
structure Lists (elements : List Json.Value) (m : ReleaseMetadata) : Prop where
  held : List.Forall₂ (fun field element => Decodes field.shape element (m.get field))
    (Field.all.take elements.length) elements
  absent : ∀ field : Field, field ∉ Field.all.take elements.length →
    m.get field = field.shape.zero

/-! ### One element after the other -/

/-- What elements make of a record if they are the values of some fields in turn. -/
def Fills : List Field → ReleaseMetadata → List Json.Value → ReleaseMetadata → Prop
  | _, m, [], result => result = m
  | [], _, _ :: _, _ => False
  | field :: fields, m, element :: elements, result =>
    ∃ value : field.shape.Value, Decodes field.shape element value ∧
      Fills fields (m.put field value) elements result

theorem fills_iff {fields : List Field} (distinct : fields.Nodup) :
    Fills fields m elements result ↔
      List.Forall₂ (fun field element => Decodes field.shape element (result.get field))
        (fields.take elements.length) elements ∧
      ∀ field : Field, field ∉ fields.take elements.length → result.get field = m.get field := by
  induction elements generalizing fields m with
  | nil =>
    rw [Fills, List.length_nil, List.take_zero]
    constructor
    · rintro rfl
      exact ⟨.nil, fun _ _ => rfl⟩
    · rintro ⟨-, same⟩
      exact ext_get fun field => same field List.not_mem_nil
  | cons element elements ih =>
    cases fields with
    | nil => simp [Fills]
    | cons field fields =>
      obtain ⟨new, distinct⟩ := List.nodup_cons.mp distinct
      have new : field ∉ fields.take elements.length := mt List.mem_of_mem_take new
      rw [Fills, List.length_cons, List.take_succ_cons, List.forall₂_cons]
      constructor
      · rintro ⟨value, decodes, more⟩
        obtain ⟨each, others⟩ := (ih distinct).mp more
        -- no later element goes into this field
        have held : result.get field = value := by rw [others field new, get_put_self]
        refine ⟨⟨held ▸ decodes, each⟩, ?_⟩
        intro other missing
        obtain ⟨different, missing⟩ := not_or.mp (mt List.mem_cons.mpr missing)
        rw [others other missing, get_put_of_ne m different]
      · rintro ⟨⟨decodes, each⟩, others⟩
        refine ⟨result.get field, decodes, (ih distinct).mpr ⟨each, ?_⟩⟩
        intro other missing
        by_cases same : other = field
        · subst same
          exact (get_put_self m other _).symm
        · rw [get_put_of_ne m same]
          exact others other (mt List.mem_cons.mp (not_or.mpr ⟨same, missing⟩))

theorem Field.nodup_all : Field.all.Nodup := by decide

theorem fills_empty_iff : Fills Field.all {} elements result ↔ Lists elements result := by
  rw [fills_iff Field.nodup_all]
  constructor
  · rintro ⟨each, others⟩
    exact ⟨each, fun field missing => (others field missing).trans (get_empty field)⟩
  · rintro ⟨each, others⟩
    exact ⟨each, fun field missing => (others field missing).trans (get_empty field).symm⟩

theorem exists_fills {fields : List Field} (m : ReleaseMetadata)
    (fits : List.Forall₂ (fun field element => ∃ value, Decodes field.shape element value)
      (fields.take elements.length) elements) :
    ∃ result, Fills fields m elements result := by
  induction elements generalizing fields m with
  | nil => exact ⟨m, by rw [Fills]⟩
  | cons element elements ih =>
    cases fields with
    | nil => cases fits
    | cons field fields =>
      rw [List.length_cons, List.take_succ_cons, List.forall₂_cons] at fits
      obtain ⟨⟨value, decodes⟩, others⟩ := fits
      obtain ⟨result, more⟩ := ih (m.put field value) others
      exact ⟨result, value, decodes, more⟩

theorem exists_lists_iff :
    (∃ m, Lists elements m) ↔
      List.Forall₂ (fun field element => ∃ value, Decodes field.shape element value)
        (Field.all.take elements.length) elements := by
  constructor
  · rintro ⟨m, lists⟩
    exact lists.held.imp fun field _ decodes => ⟨m.get field, decodes⟩
  · intro fits
    obtain ⟨m, fills⟩ := exists_fills {} fits
    exact ⟨m, fills_empty_iff.mp fills⟩

/-! ### Elements -/

/-- Reads the value of a field where one is due, and the elements behind it. -/
def readElement (cut : Bool) (field : Field) (fields : List Field) (m : ReleaseMetadata)
    (bytes : Bytes) : Except JsonError (ReleaseMetadata × Bytes) := do
  let (value, rest) ← readValue cut field.shape bytes
  readElements cut false fields (m.put field value) rest

variable {first : Bool} {byte : UInt8} {bytes : Bytes} {field : Field} {fields : List Field}

theorem readElements_end (due : skipSpace bytes = 93 :: rest) :
    readElements cut first fields m bytes = .ok (m, rest) := by
  cases fields <;> simp [readElements, due]

/-- There are no more elements than fields. -/
theorem readElements_full (due : skipSpace bytes = byte :: rest) (more : byte ≠ 93) :
    readElements cut first [] m bytes = .error .malformed := by
  unfold readElements
  split <;> simp_all

theorem readElements_first (due : skipSpace bytes = byte :: rest) (more : byte ≠ 93) :
    readElements cut true (field :: fields) m bytes =
      readElement cut field fields m (byte :: rest) := by
  unfold readElements
  split
  case h_4 same start =>
    cases same
    obtain ⟨rfl, rfl⟩ := List.cons.inj (start.symm.trans due)
    rfl
  all_goals simp_all

theorem readElements_comma {behind : Bytes} (comma : skipSpace bytes = 44 :: behind)
    (due : skipSpace behind = byte :: rest) (more : byte ≠ 93) :
    readElements cut false (field :: fields) m bytes =
      readElement cut field fields m (byte :: rest) := by
  unfold readElements
  split
  case h_4 same start =>
    cases same
    obtain ⟨rfl, rfl⟩ := List.cons.inj (start.symm.trans comma)
    rw [if_neg (by decide), if_neg (by decide), due]
    split
    · simp_all
    · simp_all
    · rfl
  all_goals simp_all

theorem readElement_eq_ok_iff {value : Json.Value} (written : Written value bytes)
    (ends : Ends cut rest) :
    readElement cut field fields m (bytes ++ rest) = .ok (result, left) ↔
      ∃ x : field.shape.Value, Decodes field.shape value x ∧
        readElements cut false fields (m.put field x) rest = .ok (result, left) := by
  have none : Blank [] := by decide
  have value_read : ∀ x behind, readValue cut field.shape (bytes ++ rest) = .ok (x, behind) ↔ _ :=
    fun x _ => readValue_eq_ok_iff none written ends field.shape x
  rw [readElement, bind_eq_ok_iff]
  constructor
  · rintro ⟨⟨x, behind⟩, first, more⟩
    obtain ⟨decodes, rfl⟩ := (value_read _ _).mp first
    exact ⟨x, decodes, more⟩
  · rintro ⟨x, decodes, more⟩
    exact ⟨(x, rest), (value_read _ _).mpr ⟨decodes, rfl⟩, more⟩

/-- The elements of an array fill the fields that are due. -/
theorem readElement_of_elements (written : WrittenElements elements bytes) :
    readElement cut field fields m (skipSpace (bytes ++ 93 :: rest)) = .ok (result, left) ↔
      Fills (field :: fields) m elements result ∧ left = rest := by
  -- on the elements, since how they are written is defined together with values and members
  induction elements generalizing bytes field fields m with
  | nil => cases written
  | cons value elements ih =>
    cases written with
    | @last _ before bytes after blank written blank_after =>
      have ends : Ends cut (after ++ 93 :: rest) :=
        ends_of_blank blank_after (by simp [Ends, isDigit])
      have close := skipSpace_of_blank blank_after (by decide : isSpace 93 = false) rest
      obtain ⟨byte, tail, -, start, skip⟩ :=
        skipSpace_of_written blank written (after ++ 93 :: rest)
      rw [List.append_assoc, List.append_assoc, skip, ← start, readElement_eq_ok_iff written ends]
      simp only [readElements_end close, Fills, Except.ok.injEq, Prod.mk.injEq]
      constructor
      · rintro ⟨x, decodes, rfl, rfl⟩
        exact ⟨⟨x, decodes, rfl⟩, rfl⟩
      · rintro ⟨⟨x, decodes, rfl⟩, rfl⟩
        exact ⟨x, decodes, rfl, rfl⟩
    | @more _ _ before bytes after others blank written blank_after more =>
      have ends : Ends cut (after ++ 44 :: (others ++ 93 :: rest)) :=
        ends_of_blank blank_after (by simp [Ends, isDigit])
      have comma := skipSpace_of_blank blank_after (by decide : isSpace 44 = false)
        (others ++ 93 :: rest)
      obtain ⟨byte, tail, -, start, skip⟩ :=
        skipSpace_of_written blank written (after ++ 44 :: (others ++ 93 :: rest))
      obtain ⟨next, behind, not_closed, due⟩ := elements_start more (93 :: rest)
      have whole : before ++ (bytes ++ (after ++ 44 :: others)) ++ 93 :: rest =
          before ++ (bytes ++ (after ++ 44 :: (others ++ 93 :: rest))) := by
        simp
      rw [whole, skip, ← start, readElement_eq_ok_iff written ends, Fills]
      cases fields with
      | nil =>
        -- an element for which there is no field
        have full (m : ReleaseMetadata) :
            readElements cut false [] m (after ++ 44 :: (others ++ 93 :: rest)) =
              .error .malformed := readElements_full comma (by decide)
        cases elements with
        | nil => cases more
        | cons => simp only [full, Fills, reduceCtorEq, and_false, exists_false, false_and]
      | cons field fields =>
        simp only [readElements_comma comma due not_closed, ← due, ih more, ← exists_and_right,
          and_assoc]

/-! ### Documents -/

variable {value : Json.Value} {space : Bytes}

theorem readRecord_of_array (blank : Blank space) (written : Written (.array elements) bytes)
    (rest : Bytes) :
    readRecord cut (space ++ (bytes ++ rest)) = .ok (result, left) ↔
      Lists elements result ∧ left = rest := by
  rw [← fills_empty_iff]
  cases written with
  | @emptyArray inner blank_inner =>
    have skip := skipSpace_of_blank blank (by decide : isSpace 91 = false) (inner ++ 93 :: rest)
    have close := skipSpace_of_blank blank_inner (by decide : isSpace 93 = false) rest
    have read : readRecord cut (space ++ 91 :: (inner ++ 93 :: rest)) = .ok ({}, rest) := by
      rw [readRecord, skip]
      exact readElements_end close
    rw [List.cons_append, List.append_assoc, List.cons_append, List.nil_append, read]
    simp [Fills, eq_comm]
  | @array _ body more =>
    have skip := skipSpace_of_blank blank (by decide : isSpace 91 = false) (body ++ 93 :: rest)
    obtain ⟨next, behind, not_closed, due⟩ := elements_start more (93 :: rest)
    have first : readRecord cut (space ++ 91 :: (body ++ 93 :: rest)) =
        readElement cut .name Field.all.tail {} (skipSpace (body ++ 93 :: rest)) := by
      rw [readRecord, skip, due]
      exact readElements_first due not_closed
    rw [List.cons_append, List.append_assoc, List.cons_append, List.nil_append, first]
    exact readElement_of_elements more

/-- What starts like neither an object nor an array is refused at once. -/
theorem ofJson_of_other (due : skipSpace bytes = byte :: rest) (no_object : byte ≠ 123)
    (no_array : byte ≠ 91) : ofJson cut bytes = .error (mismatched cut .record (byte :: rest)) := by
  have read : readRecord cut bytes = .error (mismatched cut .record (byte :: rest)) := by
    unfold readRecord
    split <;> simp_all
  rw [ofJson, read]
  rfl

theorem isObject_of_starts (starts : Starts value 123) : ∃ members, value = .object members := by
  cases value <;> simp [Starts, startsNumber, isDigit] at starts ⊢

/-- A document that is no object is accepted if it is an array of values that fit the first fields
one by one, and refused otherwise. -/
theorem ofJson_eq_ok_iff_lists (document : Document value bytes)
    (no_object : ∀ members, value ≠ .object members) (m : ReleaseMetadata) :
    ofJson false bytes = .ok m ↔ ∃ elements, value = .array elements ∧ Lists elements m := by
  cases document with
  | @around before bytes after blank written blank_after =>
    obtain ⟨byte, tail, starts, -, due⟩ := skipSpace_of_written blank written after
    by_cases array : byte = 91
    · subst array
      obtain ⟨elements, rfl⟩ := isArray_of_starts starts
      have closed : skipSpace after = [] := by
        have skip := skipSpace_blank blank_after []
        rwa [List.append_nil] at skip
      rw [ofJson, bind_eq_ok_iff]
      constructor
      · rintro ⟨⟨result, left⟩, read, same⟩
        obtain ⟨lists, rfl⟩ := (readRecord_of_array blank written after).mp read
        obtain rfl : result = m := by simpa [closed] using same
        exact ⟨elements, rfl, lists⟩
      · rintro ⟨_, same, lists⟩
        obtain rfl := Json.Value.array.inj same
        exact ⟨(m, after), (readRecord_of_array blank written after).mpr ⟨lists, rfl⟩,
          by simp [closed]⟩
    · have object : byte ≠ 123 := by
        rintro rfl
        obtain ⟨members, same⟩ := isObject_of_starts starts
        exact no_object members same
      rw [ofJson_of_other due object array]
      constructor
      · nofun
      · rintro ⟨elements, rfl, -⟩
        exact absurd starts array

end LinkArchive.ReleaseMetadata
