import LinkArchive.Proofs.Json.Printed
import LinkArchive.Proofs.Release.Metadata.Objects
import LinkArchive.Release.Metadata.Printer

/-!
# Metadata that was printed

A record is read back from the document that it is printed as, whatever its texts, numbers, codes
and flags are: `ofJson_toJson`. Of the delays between requests this is shown for none at all.
-/

namespace LinkArchive.ReleaseMetadata

open Json

/-! ### Values -/

/-- A value is printed as JSON from which its field has it again. -/
def ReadsBack (shape : Shape) (value : shape.Value) : Prop :=
  ∃ json, Written json (Bytes.ofText (renderValue shape value)) ∧ Decodes shape json value

theorem written_ofInt (value : Int) :
    Written (.number (.ofInt value)) (Bytes.ofText (toString value)) := by
  rw [← NumberLiteral.bytes_ofInt]
  exact .number _

theorem readsBack_codes (codes : List UInt16) : ReadsBack .codes codes := by
  refine ⟨.array (codes.map fun code => .number (.ofInt code.toNat)), ?_, .inr ⟨_, rfl, ?_⟩⟩
  · apply array_printed
    rw [List.forall₂_map_left_iff, List.forall₂_map_right_iff, List.forall₂_same]
    intro code _
    exact written_ofInt code.toNat
  · rw [List.forall₂_map_left_iff, List.forall₂_same]
    intro code _
    exact ⟨_, rfl, NumberLiteral.integer?_ofInt _⟩

theorem readsBack_optionalText (text? : Option String) : ReadsBack .optionalText text? := by
  cases text? with
  | none =>
    have null : Bytes.ofText "null" = [110, 117, 108, 108] := by decide +kernel
    refine ⟨.null, ?_, rfl⟩
    show Written .null (Bytes.ofText "null")
    rw [null]
    exact .null
  | some text => exact ⟨.text text, .text (quoted_printed text), rfl⟩

theorem readsBack_flag (flag : Bool) : ReadsBack .flag flag := by
  refine ⟨.boolean flag, ?_, rfl⟩
  cases flag with
  | true =>
    have bytes : Bytes.ofText "true" = [116, 114, 117, 101] := by decide +kernel
    show Written (.boolean true) (Bytes.ofText "true")
    rw [bytes]
    exact .true
  | false =>
    have bytes : Bytes.ofText "false" = [102, 97, 108, 115, 101] := by decide +kernel
    show Written (.boolean false) (Bytes.ofText "false")
    rw [bytes]
    exact .false

theorem readsBack_zero {value : Float} (zero : (value == 0) = true) : ReadsBack .number value := by
  obtain ⟨positive, rfl⟩ := exists_signed_of_beq_zero zero
  refine ⟨.number (.zero positive), ?_, _, _, rfl, NumberLiteral.number?_zero positive, rfl⟩
  show Written _ (Bytes.ofText (Json.float (signed positive 0)))
  rw [← NumberLiteral.bytes_zero]
  exact .number _

theorem readsBack_of_ne_number {shape : Shape} (other : shape ≠ .number) (value : shape.Value) :
    ReadsBack shape value := by
  cases shape with
  | text => exact ⟨.text value, .text (quoted_printed value), rfl⟩
  | integer =>
    exact ⟨_, written_ofInt value.toInt, _, rfl, NumberLiteral.integer?_ofInt value.toInt⟩
  | number => exact absurd rfl other
  | codes => exact readsBack_codes value
  | optionalText => exact readsBack_optionalText value
  | flag => exact readsBack_flag value

/-! ### Records -/

theorem readsBack_get {m : ReleaseMetadata} (still : (m.requestDelay == 0) = true)
    (field : Field) : ReadsBack field.shape (m.get field) := by
  cases field with
  | requestDelay => exact readsBack_zero still
  | _ => exact readsBack_of_ne_number (by decide) _

/-- A record without a delay between requests is read back from what it is printed as. -/
theorem ofJson_toJson (m : ReleaseMetadata) (still : (m.requestDelay == 0) = true) :
    ofJson false (Bytes.ofText m.toJson) = .ok m := by
  obtain ⟨value, reads⟩ := Classical.axiomOfChoice (readsBack_get still)
  let member (field : Field) : String × Json.Value := (field.key, value field)
  have listed (field : Field) : field ∈ Field.all := by cases field <;> decide
  have document : Document (.object (Field.all.map member)) (Bytes.ofText m.toJson) := by
    apply object_printed
    · rw [List.forall₂_map_left_iff, List.forall₂_map_right_iff, List.forall₂_same]
      intro field _
      exact member_printed field.key (reads field).1
    · exact List.cons_ne_nil _ _
  have keys : (Field.all.map member).map Prod.fst = Field.all.map Field.key := List.map_map ..
  apply (ofJson_eq_ok_iff document m).mpr
  refine ⟨?_, ?_, ?_⟩
  · rw [keys]
    decide
  · intro pair present
    obtain ⟨field, -, rfl⟩ := List.mem_map.mp present
    exact ⟨field, rfl, (reads field).2⟩
  · intro field absent
    rw [keys] at absent
    exact absurd (List.mem_map_of_mem (listed field)) absent

/-- A name with every kind of character, and numbers at the ends of their ranges. -/
theorem ofJson_toJson_of_escapes :
    let m : ReleaseMetadata := {
      name := "\"\\/\n\x01é🦀", minVersion := -0x8000000000000000,
      minClientVersion := 0x7fffffffffffffff, requestDelay := -0.0, redirectCodes := [0, 65535],
      bodyRegex := some "", enabled := true }
    renderField m .name = "\"name\":\"\\\"\\\\/\\n\\u0001é🦀\"" ∧
      renderField m .minVersion = "\"min_version\":-9223372036854775808" ∧
      renderField m .requestDelay = "\"request_delay\":-0.0" ∧
      (m.requestDelay == 0) = true ∧ ofJson false (Bytes.ofText m.toJson) = .ok m := by
  intro m
  have still : (m.requestDelay == 0) = true := by decide +kernel
  exact ⟨by decide +kernel, by decide +kernel, by decide +kernel, still, ofJson_toJson m still⟩

end LinkArchive.ReleaseMetadata
