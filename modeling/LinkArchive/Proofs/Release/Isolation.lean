import LinkArchive.Proofs.Release.Walk
import Mathlib.Data.List.Forall2

/-!
# Dumps by themselves

Whatever becomes of one dump of a release, a walk goes through the others as if nothing had
happened: `Handled.isolated_of_walk`. An entry that is a dump has no say in the inventory, apart
from its own place in it: `Inventory.ofEntries_around`.
-/

namespace LinkArchive

/-! ### Entries around a dump -/

namespace Inventory

variable {before after : List Zip.Entry} {entry : Zip.Entry}

theorem not_isMetadata_of_isDump (isDump : entry.kind.isDump = true) :
    isMetadata entry = false := by
  obtain ⟨compression, width, kind⟩ := Zip.Entry.kind_of_isDump isDump
  rw [isMetadata, kind]
  rfl

theorem metadata?_around (other : isMetadata entry = false) :
    metadata? (before ++ entry :: after) =
      (before.head?.toList ++ after.getLast?.toList ++ (before ++ after)).find? isMetadata := by
  have first : ((before ++ entry :: after).head?.toList).find? isMetadata =
      before.head?.toList.find? isMetadata := by
    cases before with
    | nil => simp [other]
    | cons => rfl
  have last : ((before ++ entry :: after).getLast?.toList).find? isMetadata =
      after.getLast?.toList.find? isMetadata := by
    rcases List.eq_nil_or_concat after with rfl | ⟨others, final, rfl⟩
    · simp [other]
    · rw [List.concat_eq_append, ← List.cons_append, ← List.append_assoc, List.getLast?_concat,
        List.getLast?_concat]
  have all : (before ++ entry :: after).find? isMetadata = (before ++ after).find? isMetadata := by
    rw [List.find?_append, List.find?_append, List.find?_cons_of_neg (by simp [other])]
  rw [metadata?, List.find?_append, List.find?_append, first, last, all, ← List.find?_append,
    ← List.find?_append]

theorem second?_around (other : isMetadata entry = false) (metadata : Zip.Entry) :
    second? metadata (before ++ entry :: after) = second? metadata (before ++ after) := by
  rw [second?, second?, List.find?_append, List.find?_append,
    List.find?_cons_of_neg (by simp [other])]

theorem skipped_around (isDump : entry.kind.isDump = true) :
    (before ++ entry :: after).filter (·.kind == .other) =
      (before ++ after).filter (·.kind == .other) := by
  obtain ⟨compression, width, kind⟩ := Zip.Entry.kind_of_isDump isDump
  have unskipped : ¬(entry.kind == .other) = true := by
    rw [kind]
    nofun
  rw [List.filter_append, List.filter_append, List.filter_cons_of_neg (by simp [unskipped])]

theorem dumps_around (isDump : entry.kind.isDump = true) :
    (before ++ entry :: after).filter (·.kind.isDump) =
      before.filter (·.kind.isDump) ++ entry :: after.filter (·.kind.isDump) := by
  rw [List.filter_append, List.filter_cons, if_pos isDump]

/-- A dump can take another's place without a change to the rest of the inventory, or to what is
wrong with it. -/
theorem ofEntries_exchange {changed : Zip.Entry} (isDump : entry.kind.isDump = true)
    (remains : changed.kind.isDump = true) (container : String) :
    ofEntries container (before ++ changed :: after) =
      (ofEntries container (before ++ entry :: after)).map fun inventory => { inventory with
        dumps := (before ++ changed :: after).filter (·.kind.isDump) } := by
  have other := not_isMetadata_of_isDump isDump
  have alsoOther := not_isMetadata_of_isDump remains
  have found : metadata? (before ++ changed :: after) = metadata? (before ++ entry :: after) := by
    rw [metadata?_around alsoOther, metadata?_around other]
  have alone (metadata : Zip.Entry) : second? metadata (before ++ changed :: after) =
      second? metadata (before ++ entry :: after) := by
    rw [second?_around alsoOther, second?_around other]
  have skipped : (before ++ changed :: after).filter (·.kind == .other) =
      (before ++ entry :: after).filter (·.kind == .other) := by
    rw [skipped_around remains, skipped_around isDump]
  rw [ofEntries, if_neg (by simp), ofEntries, if_neg (by simp), found]
  cases metadata? (before ++ entry :: after) with
  | none => rfl
  | some metadata =>
    dsimp only
    rw [← second?, ← second?, alone, skipped]
    cases second? metadata (before ++ entry :: after) <;> rfl

theorem ofEntries_around {container : String} {changed : Zip.Entry} {inventory : Inventory}
    (isDump : entry.kind.isDump = true) (remains : changed.kind.isDump = true)
    (sorted : ofEntries container (before ++ entry :: after) = .ok inventory) :
    ofEntries container (before ++ changed :: after) = .ok { inventory with
      dumps := (before ++ changed :: after).filter (·.kind.isDump) } := by
  rw [ofEntries_exchange isDump remains, sorted]
  rfl

end Inventory

/-! ### What comes of a dump -/

/-- What can come of the member at a place: a report on it, which is told after all other news of
the member. -/
structure Walk.Came (place : Location) (came : MemberReport × List Event) : Prop where
  reports_there : came.1.IsAt place
  told_there : ∀ event ∈ came.2, event.IsAt place
  reported_last : ∃ told, came.2 = told ++ Event.ofReport came.1

namespace Walk

theorem came_ofEntry (container : String) (metadata : ReleaseMetadata) (options : WalkOptions)
    (entry : Zip.Entry) :
    Came ⟨container, entry.name⟩ (ofEntry container metadata options entry) := by
  obtain ⟨there, told⟩ := isAt_ofEntry container metadata options entry
  refine ⟨there, told, ?_⟩
  unfold ofEntry
  cases entry.kind <;> exact ⟨_, rfl⟩

theorem came_ofEntries (container : String) (metadata : ReleaseMetadata) (options : WalkOptions)
    (entries : List Zip.Entry) :
    List.Forall₂ (fun entry came => Came ⟨container, entry.name⟩ came) entries
      (entries.map (ofEntry container metadata options)) := by
  rw [List.forall₂_map_right_iff, List.forall₂_same]
  intro entry _
  exact came_ofEntry container metadata options entry

end Walk

namespace Handled

variable {σ : Type} {handler : Handler σ}

/-- The walk came to its end, and what came of the dumps is this, one after the other. -/
structure WentThrough (container : String) (metadata : ReleaseMetadata) (skipped : List String)
    (dumps : List (MemberReport × List Event)) (handled : Handled σ ReleaseReport) : Prop where
  result_eq : handled.result =
    .ok { container, metadata, members := dumps.map (·.1), skipped }
  events_eq : handled.events = dumps.flatMap (·.2)

theorem wentThrough_around {container : String} {file : Bytes} {before after : List Zip.Entry}
    {entry : Zip.Entry} {inventory : Inventory} {metadata : ReleaseMetadata}
    (listed : Zip.entries? file = some (before ++ entry :: after))
    (isDump : entry.kind.isDump = true)
    (sorted : Inventory.ofEntries container (before ++ entry :: after) = .ok inventory)
    (decoded : inventory.metadata.metadata = .ok metadata) (tireless : handler.Tireless)
    (options : WalkOptions) (state : σ) :
    let came := Walk.ofEntry container metadata options
    (ofWalk handler (Walk.ofZip container options file) state).WentThrough container metadata
      (inventory.skipped.map (·.name))
      ((before.filter (·.kind.isDump)).map came ++
        came entry :: (after.filter (·.kind.isDump)).map came) := by
  intro came
  have dumps : ((before ++ entry :: after).filter (·.kind.isDump)).map came =
      (before.filter (·.kind.isDump)).map came ++
        came entry :: (after.filter (·.kind.isDump)).map came := by
    rw [Inventory.dumps_around isDump, List.map_append, List.map_cons]
  rw [ofZip_of_tireless listed sorted decoded tireless options state, ← dumps]
  exact ⟨rfl, rfl⟩

/-- Two containers that differ in no more than one dump, whatever is the matter with it: all that is
told of the other dumps is the same, before what is told of this one and after it. -/
theorem isolated_of_walk {container : String} {file other : Bytes} {before after : List Zip.Entry}
    {entry changed : Zip.Entry} {inventory : Inventory} {metadata : ReleaseMetadata}
    (listed : Zip.entries? file = some (before ++ entry :: after))
    (relisted : Zip.entries? other = some (before ++ changed :: after))
    (named : changed.name = entry.name) (isDump : entry.kind.isDump = true)
    (sorted : Inventory.ofEntries container (before ++ entry :: after) = .ok inventory)
    (decoded : inventory.metadata.metadata = .ok metadata) (tireless : handler.Tireless)
    (options : WalkOptions) (state : σ) :
    ∃ earlier later own otherOwn skipped,
      List.Forall₂ (fun entry came => Walk.Came ⟨container, entry.name⟩ came)
        (before.filter (·.kind.isDump)) earlier ∧
      List.Forall₂ (fun entry came => Walk.Came ⟨container, entry.name⟩ came)
        (after.filter (·.kind.isDump)) later ∧
      Walk.Came ⟨container, entry.name⟩ own ∧ Walk.Came ⟨container, entry.name⟩ otherOwn ∧
      (ofWalk handler (Walk.ofZip container options file) state).WentThrough container metadata
        skipped (earlier ++ own :: later) ∧
      (ofWalk handler (Walk.ofZip container options other) state).WentThrough container metadata
        skipped (earlier ++ otherOwn :: later) := by
  have remains : changed.kind.isDump = true := by
    rw [Zip.Entry.kind, named]
    exact isDump
  have resorted := Inventory.ofEntries_around isDump remains sorted
  have through := wentThrough_around listed isDump sorted decoded tireless options state
  have otherThrough := wentThrough_around relisted remains resorted decoded tireless options state
  have otherCame := Walk.came_ofEntry container metadata options changed
  rw [named] at otherCame
  exact ⟨_, _, _, _, _, Walk.came_ofEntries container metadata options _,
    Walk.came_ofEntries container metadata options _,
    Walk.came_ofEntry container metadata options entry, otherCame, through, otherThrough⟩

/-- The small release, with a method of compression stated for its first dump that is not known. -/
def damagedRelease : Bytes := smallRelease.set 317 7

theorem entries_damagedRelease : ∃ document entry final,
    Zip.entries? smallRelease = some [document, entry, final] ∧
      Zip.entries? damagedRelease =
        some [document, { entry with stored := false, content := none }, final] ∧
      entry.kind.isDump = true ∧ final.kind.isDump = true ∧ entry.content.isSome = true := by
  have damaged : Zip.entries? damagedRelease = (Zip.entries? smallRelease).map
      (·.modify 1 fun entry => { entry with stored := false, content := none }) := by
    decide +kernel
  have kinds : (Zip.entries? smallRelease).map
      (·.map fun entry => (entry.kind.isDump, entry.content.isSome)) =
        some [(false, true), (true, true), (true, true)] := by
    decide +kernel
  obtain ⟨entries, listed, parts⟩ := Option.map_eq_some_iff.mp kinds
  have three : entries.length = 3 := by simpa using congrArg List.length parts
  obtain ⟨document, entry, final, rfl⟩ := List.length_eq_three.mp three
  simp only [List.map_cons, List.map_nil, List.cons.injEq, Prod.mk.injEq] at parts
  obtain ⟨-, ⟨isDump, opened⟩, ⟨lastIsDump, -⟩, -⟩ := parts
  rw [listed] at damaged
  exact ⟨document, entry, final, listed, damaged, isDump, lastIsDump, opened⟩

theorem isolated_of_smallRelease :
    ∃ document entry changed final,
      Zip.entries? smallRelease = some [document, entry, final] ∧
      Zip.entries? damagedRelease = some [document, changed, final] ∧
      final.kind.isDump = true ∧ entry.content.isSome = true ∧ changed.content = none ∧
      ∃ metadata earlier later own otherOwn skipped,
        List.Forall₂ (fun entry came => Walk.Came ⟨"c", entry.name⟩ came)
          ([document].filter (·.kind.isDump)) earlier ∧
        List.Forall₂ (fun entry came => Walk.Came ⟨"c", entry.name⟩ came)
          ([final].filter (·.kind.isDump)) later ∧
        Walk.Came ⟨"c", entry.name⟩ own ∧ Walk.Came ⟨"c", entry.name⟩ otherOwn ∧
        (ofWalk counting (Walk.ofZip "c" smallOptions smallRelease) 0).WentThrough "c" metadata
          skipped (earlier ++ own :: later) ∧
        (ofWalk counting (Walk.ofZip "c" smallOptions damagedRelease) 0).WentThrough "c" metadata
          skipped (earlier ++ otherOwn :: later) := by
  obtain ⟨entries, inventory, metadata, found, sorted, decoded⟩ := sorted_smallRelease
  obtain ⟨document, entry, final, listed, relisted, isDump, lastIsDump, opened⟩ :=
    entries_damagedRelease
  obtain rfl := Option.some.inj (found.symm.trans listed)
  let changed : Zip.Entry := { entry with stored := false, content := none }
  have around : Zip.entries? smallRelease = some ([document] ++ entry :: [final]) := listed
  have otherAround : Zip.entries? damagedRelease = some ([document] ++ changed :: [final]) :=
    relisted
  have tireless : counting.Tireless := fun _ _ _ => rfl
  have isolated := isolated_of_walk around otherAround rfl isDump sorted decoded tireless
    smallOptions 0
  exact ⟨document, entry, changed, final, listed, relisted, lastIsDump, opened, rfl, metadata,
    isolated⟩

end Handled

end LinkArchive
