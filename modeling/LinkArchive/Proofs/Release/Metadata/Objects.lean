import LinkArchive.Proofs.Release.Metadata.Fields
import LinkArchive.Proofs.Release.Metadata.Values

/-!
# Objects as release metadata

An object is read as the record that holds what its members say, in whatever order they come and
whatever white space is between them: `ofJson_eq_ok_iff`.
-/

namespace LinkArchive.ReleaseMetadata

open Json

variable {cut : Bool} {rest left : Bytes} {members : List (String × Json.Value)}

/-- A record that holds what the members of an object say, and no more. -/
structure Holds (members : List (String × Json.Value)) (m : ReleaseMetadata) : Prop where
  distinct : (members.map Prod.fst).Nodup
  present : ∀ member ∈ members, ∃ field : Field,
    field.key = member.1 ∧ Decodes field.shape member.2 (m.get field)
  absent : ∀ field : Field, field.key ∉ members.map Prod.fst → m.get field = field.shape.zero

theorem Holds.perm {m : ReleaseMetadata} {others : List (String × Json.Value)}
    (holds : Holds members m) (perm : members.Perm others) : Holds others m where
  distinct := (perm.map Prod.fst).nodup_iff.mp holds.distinct
  present member listed := holds.present member (perm.mem_iff.mpr listed)
  absent field missing :=
    holds.absent field fun listed => missing ((perm.map Prod.fst).mem_iff.mp listed)

/-! ### One member after the other -/

/-- What the members make of a record if those of some fields were there before. -/
def Gathers : List Field → ReleaseMetadata → List (String × Json.Value) → ReleaseMetadata → Prop
  | _, m, [], result => result = m
  | seen, m, member :: members, result =>
    ∃ (field : Field) (value : field.shape.Value), field.key = member.1 ∧ field ∉ seen ∧
      Decodes field.shape member.2 value ∧
        Gathers (field :: seen) (m.put field value) members result

/-- The field of a later member is not the one of a member with another key. -/
theorem not_mem_cons_of_key {seen : List Field} {field twin : Field}
    {member other : String × Json.Value} (key : field.key = member.1)
    (new : member.1 ∉ members.map Prod.fst) (listed : other ∈ members)
    (twin_key : twin.key = other.1) (unseen : twin ∉ seen) : twin ∉ field :: seen := by
  rw [List.mem_cons, not_or]
  refine ⟨?_, unseen⟩
  rintro rfl
  exact new (List.mem_map.mpr ⟨other, listed, twin_key.symm.trans key⟩)

theorem gathers_iff {seen : List Field} {m result : ReleaseMetadata} :
    Gathers seen m members result ↔
      (members.map Prod.fst).Nodup ∧
      (∀ member ∈ members, ∃ field : Field, field.key = member.1 ∧ field ∉ seen ∧
        Decodes field.shape member.2 (result.get field)) ∧
      ∀ field : Field, field.key ∉ members.map Prod.fst → result.get field = m.get field := by
  induction members generalizing seen m with
  | nil =>
    constructor
    · rintro rfl
      simp
    · rintro ⟨-, -, same⟩
      exact ext_get fun field => same field (by simp)
  | cons member members ih =>
    rw [List.map_cons, List.nodup_cons, List.forall_mem_cons]
    constructor
    · rintro ⟨field, value, key, unseen, decodes, more⟩
      obtain ⟨distinct, present, absent⟩ := ih.mp more
      have new : field.key ∉ members.map Prod.fst := by
        intro listed
        obtain ⟨other, member_other, same⟩ := List.mem_map.mp listed
        obtain ⟨twin, twin_key, unseen, -⟩ := present other member_other
        have again : twin = field := Field.key_injective (twin_key.trans same)
        exact unseen (again ▸ List.mem_cons_self)
      -- no later member puts this field again
      have held : result.get field = value := (absent field new).trans (get_put_self m field value)
      refine ⟨⟨key ▸ new, distinct⟩, ⟨⟨field, key, unseen, held ▸ decodes⟩, ?_⟩, ?_⟩
      · intro other listed
        obtain ⟨twin, twin_key, unseen, decodes⟩ := present other listed
        exact ⟨twin, twin_key, fun listed => unseen (List.mem_cons_of_mem _ listed), decodes⟩
      · intro other missing
        obtain ⟨different, missing⟩ := not_or.mp (mt List.mem_cons.mpr missing)
        rw [absent other missing]
        apply get_put_of_ne
        rintro rfl
        exact different key
    · rintro ⟨⟨new, distinct⟩, ⟨⟨field, key, unseen, decodes⟩, present⟩, absent⟩
      refine ⟨field, result.get field, key, unseen, decodes, ih.mpr ⟨distinct, ?_, ?_⟩⟩
      · intro other listed
        obtain ⟨twin, twin_key, twin_unseen, decodes⟩ := present other listed
        exact ⟨twin, twin_key, not_mem_cons_of_key key new listed twin_key twin_unseen, decodes⟩
      · intro other missing
        by_cases same : other = field
        · subst same
          exact (get_put_self m other _).symm
        · rw [get_put_of_ne m same]
          apply absent
          rw [List.mem_cons, not_or]
          refine ⟨?_, missing⟩
          intro other_key
          exact same (Field.key_injective (other_key.trans key.symm))

theorem gathers_empty_iff {result : ReleaseMetadata} :
    Gathers [] {} members result ↔ Holds members result := by
  rw [gathers_iff]
  constructor
  · rintro ⟨distinct, present, absent⟩
    refine ⟨distinct, ?_, ?_⟩
    · intro member listed
      obtain ⟨field, key, -, decodes⟩ := present member listed
      exact ⟨field, key, decodes⟩
    · intro field missing
      exact (absent field missing).trans (get_empty field)
  · rintro ⟨distinct, present, absent⟩
    refine ⟨distinct, ?_, ?_⟩
    · intro member listed
      obtain ⟨field, key, decodes⟩ := present member listed
      exact ⟨field, key, List.not_mem_nil, decodes⟩
    · intro field missing
      exact (absent field missing).trans (get_empty field).symm

theorem exists_gathers {seen : List Field} (m : ReleaseMetadata)
    (distinct : (members.map Prod.fst).Nodup)
    (each : ∀ member ∈ members, ∃ (field : Field) (value : field.shape.Value),
      field.key = member.1 ∧ field ∉ seen ∧ Decodes field.shape member.2 value) :
    ∃ result, Gathers seen m members result := by
  induction members generalizing seen m with
  | nil => exact ⟨m, rfl⟩
  | cons member members ih =>
    rw [List.map_cons, List.nodup_cons] at distinct
    obtain ⟨⟨field, value, key, unseen, decodes⟩, others⟩ := List.forall_mem_cons.mp each
    have later : ∀ other ∈ members, ∃ (twin : Field) (value : twin.shape.Value),
        twin.key = other.1 ∧ twin ∉ field :: seen ∧ Decodes twin.shape other.2 value := by
      intro other listed
      obtain ⟨twin, twin_value, twin_key, twin_unseen, decodes⟩ := others other listed
      exact ⟨twin, twin_value, twin_key,
        not_mem_cons_of_key key distinct.1 listed twin_key twin_unseen, decodes⟩
    obtain ⟨result, more⟩ := ih (m.put field value) distinct.2 later
    exact ⟨result, field, value, key, unseen, decodes, more⟩

theorem exists_holds_iff :
    (∃ m, Holds members m) ↔ (members.map Prod.fst).Nodup ∧
      ∀ member ∈ members, ∃ (field : Field) (value : field.shape.Value),
        field.key = member.1 ∧ Decodes field.shape member.2 value := by
  constructor
  · rintro ⟨m, holds⟩
    refine ⟨holds.distinct, ?_⟩
    intro member listed
    obtain ⟨field, key, decodes⟩ := holds.present member listed
    exact ⟨field, m.get field, key, decodes⟩
  · rintro ⟨distinct, each⟩
    have unseen : ∀ member ∈ members, ∃ (field : Field) (value : field.shape.Value),
        field.key = member.1 ∧ field ∉ [] ∧ Decodes field.shape member.2 value := by
      intro member listed
      obtain ⟨field, value, key, decodes⟩ := each member listed
      exact ⟨field, value, key, List.not_mem_nil, decodes⟩
    obtain ⟨m, gathers⟩ := exists_gathers {} distinct unseen
    exact ⟨m, gathers_empty_iff.mp gathers⟩

/-! ### Members -/

/-- Reads a member after its first quote, and the members behind it. -/
def readMember (cut : Bool) (fuel : Nat) (seen : List Field) (m : ReleaseMetadata) (bytes : Bytes) :
    Except JsonError (ReleaseMetadata × Bytes) := do
  let ((field, m), rest) ← readField cut seen m bytes
  readFields cut fuel (field :: seen) m rest

variable {seen : List Field} {m result : ReleaseMetadata} {bytes : Bytes}

theorem readFields_end (fuel : Nat) (due : skipSpace bytes = 125 :: rest) :
    readFields cut (fuel + 1) seen m bytes = .ok (m, rest) := by
  rw [readFields, due]
  rfl

theorem readFields_first (fuel : Nat) (due : skipSpace bytes = 34 :: rest) :
    readFields cut (fuel + 1) [] m bytes = readMember cut fuel [] m rest := by
  rw [readFields, due]
  rfl

theorem readFields_comma (fuel : Nat) {behind : Bytes} (comma : skipSpace bytes = 44 :: behind)
    (due : skipSpace behind = 34 :: rest) (field : Field) :
    readFields cut (fuel + 1) (field :: seen) m bytes =
      readMember cut fuel (field :: seen) m rest := by
  simp only [readFields, comma, due]
  rfl

theorem readField_unknown {key : String} {body : Bytes} (spelled : SpelledAll key.toList body)
    (unknown : Field.ofKey? key = none) :
    readField cut seen m (body ++ 34 :: rest) =
      .error (.data (.unknownField key (Field.all.map Field.key))) := by
  rw [readField, string_of_spelled spelled]
  simp only [bind, Except.bind, unknown]

theorem readField_known {field : Field} {body colon : Bytes}
    (spelled : SpelledAll field.key.toList body) (blank : Blank colon) :
    readField cut seen m (body ++ 34 :: (colon ++ 58 :: rest)) =
      if field ∈ seen then .error (.data (.duplicateField field.key))
      else readValue cut field.shape rest >>= fun read =>
        .ok ((field, m.put field read.1), read.2) := by
  have due := skipSpace_of_blank blank (by decide : isSpace 58 = false) rest
  rw [readField, string_of_spelled spelled]
  simp only [bind, Except.bind, Field.ofKey?_key]
  by_cases before : field ∈ seen
  · rw [if_pos before]
    exact if_pos (List.contains_iff_mem.mpr before)
  · rw [if_neg before]
    refine (if_neg (mt List.contains_iff_mem.mp before)).trans ?_
    rw [due]
    rfl

theorem readField_eq_ok_iff {key : String} {value : Json.Value} {body colon lead : Bytes}
    (spelled : SpelledAll key.toList body) (blank_colon : Blank colon) (blank_lead : Blank lead)
    (written : Written value bytes) (ends : Ends cut rest)
    (read : (Field × ReleaseMetadata) × Bytes) :
    readField cut seen m (body ++ 34 :: (colon ++ 58 :: (lead ++ (bytes ++ rest)))) = .ok read ↔
      ∃ (field : Field) (x : field.shape.Value), field.key = key ∧ field ∉ seen ∧
        Decodes field.shape value x ∧ read = ((field, m.put field x), rest) := by
  cases found : Field.ofKey? key with
  | none =>
    rw [readField_unknown spelled found]
    constructor
    · intro refused
      cases refused
    · rintro ⟨field, x, known, -⟩
      rw [Field.ofKey?_eq_some_iff.mpr known] at found
      cases found
  | some field =>
    obtain rfl := Field.ofKey?_eq_some_iff.mp found
    rw [readField_known spelled blank_colon]
    constructor
    · intro accepted
      split at accepted
      · cases accepted
      · rename_i unseen
        obtain ⟨⟨x, behind⟩, read_value, same⟩ := bind_eq_ok_iff.mp accepted
        obtain ⟨decodes, rfl⟩ :=
          (readValue_eq_ok_iff blank_lead written ends field.shape x).mp read_value
        exact ⟨field, x, rfl, unseen, decodes, (Except.ok.inj same).symm⟩
    · rintro ⟨twin, x, same, unseen, decodes, rfl⟩
      obtain rfl := Field.key_injective same
      rw [if_neg unseen, bind_eq_ok_iff]
      exact ⟨(x, rest),
        (readValue_eq_ok_iff blank_lead written ends twin.shape x).mpr ⟨decodes, rfl⟩, rfl⟩

theorem readMember_of_written {member : String × Json.Value} (written : WrittenMember member bytes)
    (ends : Ends cut rest) :
    ∃ tail after, skipSpace (bytes ++ rest) = 34 :: tail ∧ Blank after ∧
      ∀ fuel seen m read, readMember cut fuel seen m tail = .ok read ↔
        ∃ (field : Field) (x : field.shape.Value), field.key = member.1 ∧ field ∉ seen ∧
          Decodes field.shape member.2 x ∧
            readFields cut fuel (field :: seen) (m.put field x) (after ++ rest) = .ok read := by
  cases written with
  | @member key value before name colon lead bytes after blank quoted blank_colon blank_lead written
      blank_after =>
    cases quoted with
    | @quotes body spelled =>
      refine ⟨body ++ 34 :: (colon ++ 58 :: (lead ++ (bytes ++ (after ++ rest)))), after, ?_,
        blank_after, ?_⟩
      · have skip := skipSpace_of_blank blank (by decide : isSpace 34 = false)
          (body ++ 34 :: (colon ++ 58 :: (lead ++ (bytes ++ (after ++ rest)))))
        simpa using skip
      · intro fuel seen m read
        have ends_value := ends_of_blank blank_after ends
        have field_read : ∀ read, readField cut seen m _ = .ok read ↔ _ :=
          readField_eq_ok_iff spelled blank_colon blank_lead written ends_value
        rw [readMember, bind_eq_ok_iff]
        constructor
        · rintro ⟨_, first, more⟩
          obtain ⟨field, x, same, unseen, decodes, rfl⟩ := (field_read _).mp first
          exact ⟨field, x, same, unseen, decodes, more⟩
        · rintro ⟨field, x, same, unseen, decodes, more⟩
          exact ⟨_, (field_read _).mpr ⟨field, x, same, unseen, decodes, rfl⟩, more⟩

/-- Where the members of an object start, and what reading them gives. -/
theorem readMember_of_members (written : WrittenMembers members bytes) (rest : Bytes) :
    ∃ tail, skipSpace (bytes ++ 125 :: rest) = 34 :: tail ∧
      ∀ fuel seen m result left, bytes.length < fuel →
        (readMember cut fuel seen m tail = .ok (result, left) ↔
          Gathers seen m members result ∧ left = rest) := by
  induction members generalizing bytes with
  | nil => cases written
  | cons member members ih =>
    cases written with
    | last written =>
      have ends : Ends cut (125 :: rest) := by simp [Ends, isDigit]
      obtain ⟨tail, after, start, blank, read⟩ := readMember_of_written written ends
      refine ⟨tail, start, ?_⟩
      intro fuel seen m result left enough
      obtain ⟨fuel, rfl⟩ := Nat.exists_eq_succ_of_ne_zero (Nat.ne_zero_of_lt enough)
      have close := skipSpace_of_blank blank (by decide : isSpace 125 = false) rest
      simp only [read, readFields_end fuel close, Gathers, Except.ok.injEq, Prod.mk.injEq]
      constructor
      · rintro ⟨field, x, same, unseen, decodes, rfl, rfl⟩
        exact ⟨⟨field, x, same, unseen, decodes, rfl⟩, rfl⟩
      · rintro ⟨⟨field, x, same, unseen, decodes, rfl⟩, rfl⟩
        exact ⟨field, x, same, unseen, decodes, rfl, rfl⟩
    | @more _ _ bytes others written more =>
      have ends : Ends cut (44 :: (others ++ 125 :: rest)) := by simp [Ends, isDigit]
      obtain ⟨tail, after, start, blank, read⟩ := readMember_of_written written ends
      obtain ⟨behind, due, later⟩ := ih more
      refine ⟨tail, by simpa using start, ?_⟩
      intro fuel seen m result left enough
      obtain ⟨fuel, rfl⟩ := Nat.exists_eq_succ_of_ne_zero (Nat.ne_zero_of_lt enough)
      have comma := skipSpace_of_blank blank (by decide : isSpace 44 = false)
        (others ++ 125 :: rest)
      have shorter : others.length < fuel := by
        simp only [List.length_append, List.length_cons] at enough
        omega
      simp only [read, readFields_comma fuel comma due, later _ _ _ _ _ shorter, Gathers,
        ← exists_and_right, and_assoc]

/-! ### Documents -/

theorem readRecord_of_written (written : Written (.object members) bytes) (rest : Bytes)
    {space : Bytes} (blank : Blank space) :
    readRecord cut (space ++ (bytes ++ rest)) = .ok (result, left) ↔
      Holds members result ∧ left = rest := by
  rw [← gathers_empty_iff]
  cases written with
  | @emptyObject inner blank_inner =>
    have skip := skipSpace_of_blank blank (by decide : isSpace 123 = false)
      (inner ++ 125 :: rest)
    have close := skipSpace_of_blank blank_inner (by decide : isSpace 125 = false) rest
    have read : readRecord cut (space ++ 123 :: (inner ++ 125 :: rest)) = .ok ({}, rest) := by
      rw [readRecord, skip]
      exact readFields_end _ close
    rw [List.cons_append, List.append_assoc, List.cons_append, List.nil_append, read]
    simp [Gathers, eq_comm]
  | @object _ body more =>
    have skip := skipSpace_of_blank blank (by decide : isSpace 123 = false) (body ++ 125 :: rest)
    obtain ⟨tail, start, read⟩ := @readMember_of_members cut _ _ more rest
    have first : readRecord cut (space ++ 123 :: (body ++ 125 :: rest)) =
        readMember cut (body ++ 125 :: rest).length [] {} tail := by
      rw [readRecord, skip]
      exact readFields_first _ start
    rw [List.cons_append, List.append_assoc, List.cons_append, List.nil_append, first]
    exact read _ _ _ _ _ (by simp)

/-- An object is read as the record that holds what its members say, and refused without one. -/
theorem ofJson_eq_ok_iff (document : Document (.object members) bytes) (m : ReleaseMetadata) :
    ofJson false bytes = .ok m ↔ Holds members m := by
  cases document with
  | @around before bytes after blank written blank_after =>
    have closed : skipSpace after = [] := by
      have skip := skipSpace_blank blank_after []
      rwa [List.append_nil] at skip
    rw [ofJson, bind_eq_ok_iff]
    constructor
    · rintro ⟨⟨result, left⟩, read, same⟩
      obtain ⟨holds, rfl⟩ := (readRecord_of_written written after blank).mp read
      obtain rfl : result = m := by simpa [closed] using same
      exact holds
    · intro holds
      exact ⟨(m, after), (readRecord_of_written written after blank).mpr ⟨holds, rfl⟩,
        by simp [closed]⟩

/-- An object is accepted if its keys are those of different fields and each value fits its field.
The record has these values and none in the other fields, however the document is written. -/
theorem ofJson_of_object (document : Document (.object members) bytes) :
    ((∃ m, ofJson false bytes = .ok m) ↔
      (members.map Prod.fst).Nodup ∧
        ∀ member ∈ members, ∃ (field : Field) (value : field.shape.Value),
          field.key = member.1 ∧ Decodes field.shape member.2 value) ∧
    ∀ m, ofJson false bytes = .ok m →
      (∀ member ∈ members, ∃ field : Field,
        field.key = member.1 ∧ Decodes field.shape member.2 (m.get field)) ∧
      (∀ field : Field, field.key ∉ members.map Prod.fst → m.get field = field.shape.zero) ∧
      ∀ others other, members.Perm others → Document (.object others) other →
        ofJson false other = .ok m := by
  constructor
  · rw [← exists_holds_iff]
    exact exists_congr (ofJson_eq_ok_iff document)
  · intro m accepted
    have holds := (ofJson_eq_ok_iff document m).mp accepted
    refine ⟨holds.present, holds.absent, ?_⟩
    intro others other perm written
    exact (ofJson_eq_ok_iff written m).mpr (holds.perm perm)

/-- A name that is a line feed, under an escaped key, and codes that are null. -/
theorem ofJson_of_escaped_key :
    let members : List (String × Json.Value) := [("name", .text "\n"), ("banned_codes", .null)]
    let bytes : Bytes := [123, 34, 110, 92, 117, 48, 48, 54, 49, 109, 101, 34, 58, 34, 92, 110, 34,
      44, 9, 34, 98, 97, 110, 110, 101, 100, 95, 99, 111, 100, 101, 115, 34, 32, 58, 110, 117, 108,
      108, 125, 10]
    Document (.object members) bytes ∧
      ∃ m, ofJson false bytes = .ok m ∧ m.name = "\n" ∧ m.bannedCodes = [] ∧ m.enabled = false := by
  intro members bytes
  have digits : Unit16 97 [48, 48, 54, 49] :=
    .digits (a := 0) (b := 0) (c := 6) (d := 1) (.decimal (by decide)) (.decimal (by decide))
      (.decimal (by decide)) (.decimal (by decide))
  have first : Spelled 'n' [110] := .plain (c := 'n') (by decide) (by decide) (by decide)
  have escaped : Spelled 'a' [92, 117, 48, 48, 54, 49] := .unit digits (by decide)
  have others : SpelledAll ['m', 'e'] [109, 101] := .plain (by decide)
  have name : SpelledAll "name".toList [110, 92, 117, 48, 48, 54, 49, 109, 101] :=
    .cons first (.cons escaped others)
  have codes : SpelledAll "banned_codes".toList
      [98, 97, 110, 110, 101, 100, 95, 99, 111, 100, 101, 115] := .plain (by decide)
  have text : SpelledAll "\n".toList [92, 110] := .cons (.short (c := '\n') (by decide)) .nil
  have none : Blank [] := by decide
  have document : Document (.object members) bytes :=
    .around none (.object (.more (.member none (.quotes name) none none (.text (.quotes text)) none)
      (.last (.member (by decide : Blank [9]) (.quotes codes) (by decide : Blank [32]) none .null
        none)))) (by decide : Blank [10])
  have distinct : (members.map Prod.fst).Nodup := by decide
  have accepted := (ofJson_of_object document).1.mpr ⟨distinct, by
    rw [List.forall_mem_cons, List.forall_mem_singleton]
    exact ⟨⟨.name, "\n", rfl, rfl⟩, ⟨.bannedCodes, [], rfl, .inl ⟨rfl, rfl⟩⟩⟩⟩
  obtain ⟨m, accepted⟩ := accepted
  obtain ⟨present, absent, -⟩ := (ofJson_of_object document).2 m accepted
  rw [List.forall_mem_cons, List.forall_mem_singleton] at present
  obtain ⟨⟨field, field_key, decodes⟩, ⟨other, other_key, null⟩⟩ := present
  obtain rfl : field = .name := Field.key_injective field_key
  obtain rfl : other = .bannedCodes := Field.key_injective other_key
  refine ⟨document, m, accepted, ?_, ?_, absent .enabled (by decide)⟩
  · exact (Json.Value.text.inj decodes).symm
  · rcases null with ⟨-, empty⟩ | ⟨elements, array, -⟩
    · exact empty
    · cases array

end LinkArchive.ReleaseMetadata
