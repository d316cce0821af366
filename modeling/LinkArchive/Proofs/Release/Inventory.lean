import LinkArchive.Proofs.Release.Walk

/-!
# What makes a release

A listing is judged as if all of its members were looked at, although the first and the last of them
come first: `Inventory.judged_ofEntries`. So it does not matter in what order they are listed:
`Inventory.ofEntries_outcome`.
-/

namespace LinkArchive.Inventory

variable {container : String} {entries : List Zip.Entry}

/-- What a listing is, by all of its members. -/
inductive Judged (container : String) (entries : List Zip.Entry) :
    Except ReleaseError Inventory → Prop where
  | empty (nothing : entries = []) : Judged container entries (.error (.emptyArchive container))
  | missing (something : entries ≠ []) (none : entries.filter isMetadata = []) :
      Judged container entries (.error (.missingMetadata container))
  | release {metadata : Zip.Entry} (alone : entries.filter isMetadata = [metadata]) :
      Judged container entries (.ok {
        metadata
        dumps := entries.filter (·.kind.isDump)
        skipped := entries.filter (·.kind == .other) })
  | ambiguous {first second : Zip.Entry} (one : first ∈ entries.filter isMetadata)
      (other : second ∈ entries.filter isMetadata) (differ : first ≠ second) :
      Judged container entries (.error (.ambiguousMetadata container first.name second.name))

/-! ### Looking for metadata documents -/

theorem mem_of_metadata? {metadata : Zip.Entry} (found : metadata? entries = some metadata) :
    metadata ∈ entries.filter isMetadata := by
  have looked := List.mem_of_find?_eq_some found
  simp only [List.mem_append, Option.mem_toList] at looked
  have present : metadata ∈ entries := by
    rcases looked with (first | last) | member
    · exact List.mem_of_head? first
    · exact List.mem_of_getLast? last
    · exact member
  exact List.mem_filter.mpr ⟨present, List.find?_some found⟩

theorem none_of_metadata? (missing : metadata? entries = none) :
    entries.filter isMetadata = [] := by
  apply List.filter_eq_nil_iff.mpr
  intro entry present
  exact List.find?_eq_none.mp missing entry (List.mem_append_right _ present)

theorem mem_of_second? {metadata second : Zip.Entry}
    (found : second? metadata entries = some second) :
    second ∈ entries.filter isMetadata ∧ second ≠ metadata := by
  have looked := List.find?_some found
  rw [Bool.and_eq_true, bne_iff_ne] at looked
  refine ⟨List.mem_filter.mpr ⟨List.mem_of_find?_eq_some found, looked.1⟩, ?_⟩
  rintro rfl
  exact looked.2 rfl

/-- With no two members of one index, a metadata document that has no second is the only one. -/
theorem alone_of_second? {metadata : Zip.Entry} (distinct : (entries.map (·.index)).Nodup)
    (member : metadata ∈ entries.filter isMetadata) (none : second? metadata entries = none) :
    entries.filter isMetadata = [metadata] := by
  have same : ∀ entry ∈ entries.filter isMetadata, entry.index = metadata.index := by
    intro entry document
    obtain ⟨present, isMetadata⟩ := List.mem_filter.mp document
    have looked := List.find?_eq_none.mp none entry present
    simpa [isMetadata] using looked
  have unique : ((entries.filter isMetadata).map (·.index)).Nodup :=
    (List.filter_sublist.map _).nodup distinct
  cases documents : entries.filter isMetadata with
  | nil =>
    rw [documents] at member
    cases member
  | cons first others =>
    rw [documents] at member same unique
    obtain ⟨first_index, others_index⟩ := List.forall_mem_cons.mp same
    have alone : others = [] := by
      cases others with
      | nil => rfl
      | cons second _ =>
        have again := others_index second List.mem_cons_self
        simp [first_index, again] at unique
    rw [alone] at member ⊢
    rw [List.mem_singleton.mp member]

theorem judged_ofEntries (distinct : (entries.map (·.index)).Nodup) (container : String) :
    Judged container entries (ofEntries container entries) := by
  unfold ofEntries
  split
  · rename_i nothing
    exact .empty (List.isEmpty_iff.mp nothing)
  · rename_i something
    have something : entries ≠ [] := by simpa using something
    cases found : metadata? entries with
    | none => exact .missing something (none_of_metadata? found)
    | some metadata =>
      dsimp only
      rw [← second?]
      have member := mem_of_metadata? found
      cases second : second? metadata entries with
      | none => exact .release (alone_of_second? distinct member second)
      | some other =>
        obtain ⟨document, differ⟩ := mem_of_second? second
        exact .ambiguous member document (Ne.symm differ)

/-! ### Listings in other orders -/

/-- An entry has one place in an inventory. -/
def Placed (inventory : Inventory) (entry : Zip.Entry) : Prop :=
  (entry = inventory.metadata ∧ entry ∉ inventory.dumps ∧ entry ∉ inventory.skipped) ∨
    (entry ≠ inventory.metadata ∧ entry ∈ inventory.dumps ∧ entry ∉ inventory.skipped) ∨
    (entry ≠ inventory.metadata ∧ entry ∉ inventory.dumps ∧ entry ∈ inventory.skipped)

/-- What a listing comes to: whether it makes a release is told by how many metadata documents there
are, and every member of a release has one place in it. -/
structure Outcome (container : String) (entries : List Zip.Entry)
    (found : Except ReleaseError Inventory) : Prop where
  empty : found = .error (.emptyArchive container) ↔ entries = []
  missing : found = .error (.missingMetadata container) ↔
    entries ≠ [] ∧ entries.countP isMetadata = 0
  release : (∃ inventory, found = .ok inventory) ↔ entries.countP isMetadata = 1
  ambiguous : (∃ first second, found = .error (.ambiguousMetadata container first second)) ↔
    2 ≤ entries.countP isMetadata
  named : ∀ first second, found = .error (.ambiguousMetadata container first second) →
    ∃ one ∈ entries, ∃ other ∈ entries, isMetadata one = true ∧ isMetadata other = true ∧
      one ≠ other ∧ one.name = first ∧ other.name = second
  placed : ∀ inventory, found = .ok inventory →
    entries.filter isMetadata = [inventory.metadata] ∧
      inventory.dumps = entries.filter (·.kind.isDump) ∧
      inventory.skipped = entries.filter (·.kind == .other) ∧
      ∀ entry ∈ entries, inventory.Placed entry

/-- Two listings come to the same, the order of dumps and skipped members aside. -/
inductive Agree : Except ReleaseError Inventory → Except ReleaseError Inventory → Prop where
  | empty (container : String) :
      Agree (.error (.emptyArchive container)) (.error (.emptyArchive container))
  | missing (container : String) :
      Agree (.error (.missingMetadata container)) (.error (.missingMetadata container))
  | ambiguous (container first second one other : String) :
      Agree (.error (.ambiguousMetadata container first second))
        (.error (.ambiguousMetadata container one other))
  | release {one other : Inventory} (metadata : one.metadata = other.metadata)
      (dumps : one.dumps.Perm other.dumps) (skipped : one.skipped.Perm other.skipped) :
      Agree (.ok one) (.ok other)

theorem two_le_countP {first second : Zip.Entry} (one : first ∈ entries.filter isMetadata)
    (other : second ∈ entries.filter isMetadata) (differ : first ≠ second) :
    2 ≤ entries.countP isMetadata := by
  rw [List.countP_eq_length_filter]
  cases documents : entries.filter isMetadata with
  | nil =>
    rw [documents] at one
    cases one
  | cons document others =>
    cases others with
    | cons => simp
    | nil =>
      rw [documents, List.mem_singleton] at one other
      exact absurd (one.trans other.symm) differ

theorem placed_of_alone {metadata : Zip.Entry} (alone : entries.filter isMetadata = [metadata])
    {entry : Zip.Entry} (present : entry ∈ entries) :
    Placed {
      metadata
      dumps := entries.filter (·.kind.isDump)
      skipped := entries.filter (·.kind == .other) } entry := by
  have document : isMetadata metadata = true :=
    (List.mem_filter.mp (alone ▸ List.mem_singleton_self metadata)).2
  have metadata_kind : metadata.kind = .metadata := by simpa [isMetadata] using document
  unfold Placed
  cases kind : entry.kind with
  | metadata =>
    have same : entry ∈ entries.filter isMetadata :=
      List.mem_filter.mpr ⟨present, by simp [isMetadata, kind]⟩
    rw [alone, List.mem_singleton] at same
    exact .inl ⟨same, by simp [kind, MemberKind.isDump], by simp [kind]⟩
  | dump compression width =>
    have differ : entry ≠ metadata := by
      rintro rfl
      cases kind.symm.trans metadata_kind
    exact .inr (.inl ⟨differ, by simp [present, kind, MemberKind.isDump], by simp [kind]⟩)
  | other =>
    have differ : entry ≠ metadata := by
      rintro rfl
      cases kind.symm.trans metadata_kind
    exact .inr (.inr ⟨differ, by simp [kind, MemberKind.isDump], by simp [present, kind]⟩)

theorem outcome_of_judged {found : Except ReleaseError Inventory}
    (judged : Judged container entries found) : Outcome container entries found := by
  cases judged with
  | empty nothing =>
    subst nothing
    exact ⟨by simp, by simp, by simp, by simp, nofun, nofun⟩
  | missing something none =>
    have count : entries.countP isMetadata = 0 := by
      rw [List.countP_eq_length_filter, none, List.length_nil]
    exact ⟨by simp [something], by simp [something, count], by simp [count], by simp [count],
      nofun, nofun⟩
  | release alone =>
    have count : entries.countP isMetadata = 1 := by
      rw [List.countP_eq_length_filter, alone, List.length_singleton]
    have something : entries ≠ [] := by
      rintro rfl
      cases alone
    refine ⟨by simp [something], by simp [count], by simp [count], by simp [count], nofun, ?_⟩
    intro inventory same
    cases same
    exact ⟨alone, rfl, rfl, fun entry present => placed_of_alone alone present⟩
  | @ambiguous one other member also differ =>
    have count := two_le_countP member also differ
    obtain ⟨present, document⟩ := List.mem_filter.mp member
    obtain ⟨also, second⟩ := List.mem_filter.mp also
    have something := List.ne_nil_of_mem present
    refine ⟨by simp [something], ?_, ?_, by simp [count], ?_, nofun⟩
    · constructor
      · nofun
      · intro none
        omega
    · constructor
      · nofun
      · intro single
        omega
    · intro first second same
      cases same
      exact ⟨one, present, other, also, document, ‹_›, differ, rfl, rfl⟩

/-- Which of the outcomes it is depends on counts, and counts do not depend on the order. -/
theorem agree_of_perm {others : List Zip.Entry} {found again : Except ReleaseError Inventory}
    (reordered : others.Perm entries) (judged : Judged container entries found)
    (rejudged : Judged container others again) : Agree found again := by
  have first := outcome_of_judged judged
  have second := outcome_of_judged rejudged
  have count := reordered.countP_eq isMetadata
  cases judged with
  | empty nothing =>
    subst nothing
    rw [second.empty.mpr reordered.eq_nil]
    exact .empty container
  | missing something none =>
    have present : others ≠ [] := fun nothing => something (nothing ▸ reordered).symm.eq_nil
    have absent := (first.missing.mp rfl).2
    rw [second.missing.mpr ⟨present, count.trans absent⟩]
    exact .missing container
  | release alone =>
    have single := first.release.mp ⟨_, rfl⟩
    obtain ⟨inventory, rfl⟩ := second.release.mpr (count.trans single)
    obtain ⟨also, dumps, skipped, -⟩ := second.placed inventory rfl
    have documents := reordered.filter isMetadata
    rw [alone, also, List.singleton_perm_singleton] at documents
    refine .release documents.symm ?_ ?_
    · rw [dumps]
      exact (reordered.filter _).symm
    · rw [skipped]
      exact (reordered.filter _).symm
  | ambiguous one other differ =>
    have several := first.ambiguous.mp ⟨_, _, rfl⟩
    obtain ⟨name, another, rfl⟩ := second.ambiguous.mpr (count ▸ several)
    exact .ambiguous ..

/-- Whether the members of a listing make a release is told by how many of them are metadata
documents, and by nothing else. The order in which they are listed is that of the dumps and of the
skipped members, and changes nothing else. -/
theorem ofEntries_outcome (distinct : (entries.map (·.index)).Nodup) (container : String) :
    Outcome container entries (ofEntries container entries) ∧
      ∀ others : List Zip.Entry, others.Perm entries →
        Agree (ofEntries container entries) (ofEntries container others) := by
  have judged := judged_ofEntries distinct container
  refine ⟨outcome_of_judged judged, ?_⟩
  intro others reordered
  have distinct_others : (others.map (·.index)).Nodup :=
    (reordered.map _).nodup_iff.mpr distinct
  exact agree_of_perm reordered judged (judged_ofEntries distinct_others container)

/-- The metadata document is neither the first nor the last of the members. -/
theorem ofEntries_outcome_of_hidden_document :
    let entries : List Zip.Entry := [⟨4, "1.txt.xz", true, 0, [], none⟩,
      ⟨2, "a.meta.json.xz", true, 0, [], none⟩, ⟨7, "notes.md", true, 0, [], none⟩,
      ⟨0, "2.txt.gz", false, 0, [], none⟩]
    (entries.map (·.index)).Nodup ∧
      Outcome "a.zip" entries (ofEntries "a.zip" entries) ∧
      ∀ others : List Zip.Entry, others.Perm entries →
        Agree (ofEntries "a.zip" entries) (ofEntries "a.zip" others) := by
  intro entries
  have distinct : (entries.map (·.index)).Nodup := by decide
  exact ⟨distinct, ofEntries_outcome distinct "a.zip"⟩

end LinkArchive.Inventory
