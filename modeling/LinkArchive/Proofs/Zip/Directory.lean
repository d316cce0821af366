import LinkArchive.Zip.Directory
import Mathlib.Data.List.Nodup

/-!
# Names in a zip file

A later record takes the place of an earlier one of its name, so a name leads to one entry only:
`Zip.nodup_names_of_entries?`.
-/

namespace LinkArchive.Zip

def recordNames (records : List (DirectoryRecord × Nat)) : List String := records.map (·.1.name)

/-- Puts a record behind others, or in the place of the one that has its name. -/
def mergeNext (merged : List (DirectoryRecord × Nat)) (next : DirectoryRecord × Nat) :
    List (DirectoryRecord × Nat) :=
  if merged.any (·.1.name == next.1.name) then
    merged.map fun old => if old.1.name == next.1.name then next else old
  else merged ++ [next]

theorem recordNames_mergeNext (merged : List (DirectoryRecord × Nat))
    (next : DirectoryRecord × Nat) :
    recordNames (mergeNext merged next) = recordNames merged ∨
      next.1.name ∉ recordNames merged ∧
        recordNames (mergeNext merged next) = recordNames merged ++ [next.1.name] := by
  unfold mergeNext
  split
  · left
    rw [recordNames, recordNames, List.map_map]
    apply List.map_congr_left
    intro old _
    by_cases same : old.1.name = next.1.name <;> simp [same]
  · rename_i absent
    right
    refine ⟨?_, List.map_append⟩
    intro member
    obtain ⟨old, found, same⟩ := List.mem_map.mp member
    exact absent (List.any_eq_true.mpr ⟨old, found, beq_iff_eq.mpr same⟩)

theorem nodup_foldl_mergeNext (records : List (DirectoryRecord × Nat))
    {merged : List (DirectoryRecord × Nat)} (unique : (recordNames merged).Nodup) :
    (recordNames (records.foldl mergeNext merged)).Nodup := by
  induction records generalizing merged with
  | nil => exact unique
  | cons next records ih =>
    apply ih
    rcases recordNames_mergeNext merged next with same | ⟨absent, added⟩
    · rw [same]
      exact unique
    · rw [added, ← List.concat_eq_append]
      exact unique.concat absent

theorem nodup_recordNames_merge (records : List (DirectoryRecord × Nat)) :
    (recordNames (merge records)).Nodup :=
  nodup_foldl_mergeNext records (show (recordNames []).Nodup from .nil)

/-- No two entries of a zip file have one name. -/
theorem nodup_names_of_entries? {file : Bytes} {entries : List Entry}
    (listed : entries? file = some entries) : (entries.map (·.name)).Nodup := by
  unfold entries? at listed
  obtain ⟨records, -, made⟩ := Option.bind_eq_some_iff.mp listed
  obtain rfl := Option.some.inj made
  have names : ((merge records).zipIdx.map fun next =>
      Entry.ofRecord file next.2 next.1.1 next.1.2).map (·.name) = recordNames (merge records) := by
    rw [List.map_map, recordNames, ← List.zipIdx_map_fst 0 (merge records), List.map_map,
      List.zipIdx_map_fst]
    rfl
  have unique := nodup_recordNames_merge records
  rw [← names] at unique
  exact unique.sublist (List.filter_sublist.map _)

end LinkArchive.Zip
