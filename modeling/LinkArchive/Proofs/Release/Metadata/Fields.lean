import LinkArchive.Release.Metadata

/-!
# The fields of release metadata

A record is no more than its fields, and they do not touch each other: `ReleaseMetadata.ext_get`,
`ReleaseMetadata.get_put_of_ne`.
-/

namespace LinkArchive.ReleaseMetadata

theorem get_put_of_ne (m : ReleaseMetadata) {field other : Field} (different : other ≠ field)
    (value : field.shape.Value) : (m.put field value).get other = m.get other := by
  cases field <;> cases other <;> first | rfl | exact absurd rfl different

theorem ext_get {m other : ReleaseMetadata} (same : ∀ field, m.get field = other.get field) :
    m = other := by
  rw [mk.injEq]
  exact ⟨same .name, same .minVersion, same .minClientVersion, same .alphabet, same .urlTemplate,
    same .requestDelay, same .redirectCodes, same .noRedirectCodes, same .unavailableCodes,
    same .bannedCodes, same .bodyRegex, same .locationAntiRegex, same .method, same .enabled,
    same .autoqueue, same .numCountPerItem, same .maxNumItems, same .lowerSequenceNum,
    same .autoreleaseTime⟩

/-- The value of a field that a document lacks. -/
def Shape.zero : (shape : Shape) → shape.Value
  | .text => ""
  | .integer => 0
  | .number => 0
  | .codes => []
  | .optionalText => none
  | .flag => false

theorem get_empty (field : Field) : ({} : ReleaseMetadata).get field = field.shape.zero := by
  cases field <;> rfl

theorem Field.ofKey?_key (field : Field) : ofKey? field.key = some field := by
  cases field <;> decide

theorem Field.ofKey?_eq_some_iff {key : String} {field : Field} :
    ofKey? key = some field ↔ field.key = key := by
  constructor
  · intro found
    have same := List.find?_some (p := fun field : Field => field.key == key) found
    exact eq_of_beq same
  · rintro rfl
    exact ofKey?_key field

theorem Field.key_injective {field other : Field} (same : field.key = other.key) :
    field = other := by
  have found := ofKey?_eq_some_iff.mpr same
  rw [ofKey?_key] at found
  exact (Option.some.inj found).symm

end LinkArchive.ReleaseMetadata
