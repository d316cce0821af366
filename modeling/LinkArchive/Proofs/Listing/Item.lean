import LinkArchive.Listing.Item
import LinkArchive.Proofs.Digest.Recorded
import LinkArchive.Proofs.Files.PathName

/-!
# Valid items

An item is valid if every file of its listing is, the listing itself aside, and is refused for the
first that is not otherwise: `Item.verify_outcome`. `Item.Offence` says what can be the matter with
a file, and in which order it is looked for.
-/

namespace LinkArchive

/-! ### First mismatches -/

theorem Algorithm.eq_of_rank {first second : Algorithm} (same : first.rank = second.rank) :
    first = second := by
  cases first <;> cases second <;> first | rfl | cases same

theorem DigestSet.mismatch?_of_firstMismatch {expected : DigestSet} {data : Bytes} {m : Mismatch}
    (first : expected.FirstMismatch data m) : expected.mismatch? data = some m := by
  cases found : expected.mismatch? data with
  | none =>
    have passes := mismatch?_eq_none.mp found m.algorithm m.expected first.expected_eq
    exact absurd (first.actual_eq.trans passes) first.differs
  | some other =>
    have also := firstMismatch_of_mismatch? found
    have passed {one two : Mismatch} (before : one.algorithm.rank < two.algorithm.rank)
        (isFirst : expected.FirstMismatch data one) (isSecond : expected.FirstMismatch data two) :
        False :=
      isFirst.differs (isFirst.actual_eq.trans
        (isSecond.earlier one.algorithm one.expected before isFirst.expected_eq))
    have same : other.algorithm = m.algorithm := by
      rcases Nat.lt_trichotomy other.algorithm.rank m.algorithm.rank with before | same | behind
      · exact absurd (passed before also first) id
      · exact Algorithm.eq_of_rank same
      · exact absurd (passed behind first also) id
    have actual : other.actual = m.actual := by rw [also.actual_eq, first.actual_eq, same]
    have expected : other.expected = m.expected := by
      apply Option.some.inj
      rw [← also.expected_eq, ← first.expected_eq, same]
    obtain ⟨_, _, _⟩ := other
    obtain ⟨_, _, _⟩ := m
    cases same
    cases actual
    cases expected
    rfl

namespace Item

variable {tree : FileTree} {dir : String} {entry : FileEntry}

/-! ### The listing itself -/

theorem isPart_listingName (dir : String) : PathName.IsPart (listingName dir) := by
  have undivided : '/' ∉ ((PathName.fileName? dir).getD "").toList := by
    cases found : PathName.fileName? dir with
    | none => simp
    | some name => exact (PathName.isPart_of_fileName? found).undivided
  have chars : (listingName dir).toList =
      ((PathName.fileName? dir).getD "").toList ++ "_files.xml".toList := by
    rw [listingName, String.toList_append]
  have long : 3 ≤ (listingName dir).toList.length := by
    rw [chars, List.length_append]
    exact Nat.le_trans (by decide) (Nat.le_add_left _ _)
  have differs {short : String} (few : short.toList.length < 3) : listingName dir ≠ short := by
    rintro rfl
    exact absurd long (Nat.not_le_of_lt few)
  refine ⟨differs (by decide), differs (by decide), differs (by decide), ?_⟩
  rw [chars, List.mem_append]
  rintro (inName | inEnding)
  · exact undivided inName
  · exact absurd inEnding (by decide)

theorem ownName_eq (dir : String) :
    (PathName.fileName? (listingPath dir)).getD "" = listingName dir := by
  rw [listingPath, PathName.fileName?_join (isPart_listingName dir)]
  rfl

/-! ### What can be the matter with a file -/

/-- Reading a listed file gives these bytes. -/
def Reads (tree : FileTree) (dir : String) (entry : FileEntry) (bytes : Bytes) : Prop :=
  ∃ source rest, tree.openFile (PathName.join dir entry.name) = .ok source ∧
    source.readToEnd = (bytes, none, rest)

/-- No digest of a file is malformed. -/
def WellFormed (entry : FileEntry) : Prop :=
  ∀ algorithm : Algorithm, ∃ digest, algorithm.recorded (entry.digestText algorithm) = .ok digest

/-- A listed file that can be read, and has all digests recorded for it. -/
structure Valid (tree : FileTree) (dir : String) (entry : FileEntry) : Prop where
  wellFormed : WellFormed entry
  passes : ∃ bytes, Reads tree dir entry bytes ∧ ∀ (algorithm : Algorithm) (digest : Bytes),
    algorithm.recorded (entry.digestText algorithm) = .ok (some digest) →
      algorithm.digest bytes = digest

/-- A listed file that can be read, but has another digest than recorded; it has those that are
checked before. -/
structure Differs (tree : FileTree) (dir : String) (entry : FileEntry) (m : Mismatch) : Prop where
  wellFormed : WellFormed entry
  recorded_eq : m.algorithm.recorded (entry.digestText m.algorithm) = .ok (some m.expected)
  differs : m.actual ≠ m.expected
  first : ∃ bytes, Reads tree dir entry bytes ∧ m.actual = m.algorithm.digest bytes ∧
    ∀ (earlier : Algorithm) (digest : Bytes), earlier.rank < m.algorithm.rank →
      earlier.recorded (entry.digestText earlier) = .ok (some digest) →
        earlier.digest bytes = digest

/-- What is the matter with a listed file: it cannot be opened, or else a digest of it is malformed,
or else it cannot be read, or else it has another digest than recorded. -/
inductive Offence (tree : FileTree) (dir : String) (entry : FileEntry) : VerifyError → Prop where
  | unopened {fault : Fault}
    (failed : tree.openFile (PathName.join dir entry.name) = .error fault) :
    Offence tree dir entry (.io fault)
  | malformed {source : Source} {algorithm : Algorithm} {error : DigestError}
    (opened : tree.openFile (PathName.join dir entry.name) = .ok source)
    (malformed : algorithm.recorded (entry.digestText algorithm) = .error error)
    (first : ∀ earlier : Algorithm, earlier.rank < algorithm.rank →
      ∃ digest, earlier.recorded (entry.digestText earlier) = .ok digest) :
    Offence tree dir entry (.digest error)
  | unread {source rest : Source} {bytes : Bytes} {fault : Fault}
    (opened : tree.openFile (PathName.join dir entry.name) = .ok source)
    (wellFormed : WellFormed entry)
    (stopped : source.readToEnd = (bytes, some (.fault fault), rest)) :
    Offence tree dir entry (.io fault)
  | differs {m : Mismatch} (differs : Differs tree dir entry m) :
    Offence tree dir entry (.mismatch m)

/-! ### One file -/

/-- A file that is opened is read up to its end or to a fault. -/
theorem readToEnd_of_openFile {path : String} {source : Source}
    (opened : tree.openFile path = .ok source) :
    ∃ bytes rest, source.readToEnd = (bytes, none, rest) ∨
      ∃ fault, source.readToEnd = (bytes, some (.fault fault), rest) := by
  unfold FileTree.openFile at opened
  split at opened
  · cases opened
  · rename_i bytes _
    cases opened
    refine ⟨bytes, [], .inl ?_⟩
    cases bytes with
    | nil => rfl
    | cons byte bytes => simp [Source.readToEnd]
  · cases opened
    exact ⟨[], [], .inr ⟨_, rfl⟩⟩

theorem verifyFile_of_unopened {fault : Fault}
    (failed : tree.openFile (PathName.join dir entry.name) = .error fault) :
    verifyFile tree dir entry = .error (.io fault) := by
  rw [verifyFile, failed]
  rfl

theorem verifyFile_of_opened {source : Source}
    (opened : tree.openFile (PathName.join dir entry.name) = .ok source) :
    verifyFile tree dir entry = (entry.digests.mapError .digest).bind fun expected =>
      (Validator.ofSource source expected).finish := by
  rw [verifyFile, opened]
  rfl

theorem digests_of_wellFormed (wellFormed : WellFormed entry) :
    ∃ set : DigestSet, entry.digests = .ok set ∧ ∀ (algorithm : Algorithm) (digest : Bytes),
      set.get? algorithm = some digest ↔
        algorithm.recorded (entry.digestText algorithm) = .ok (some digest) := by
  choose values recorded using wellFormed
  obtain ⟨set, digests, known⟩ := FileEntry.digests_of_recorded recorded
  refine ⟨set, digests, fun algorithm digest => ?_⟩
  rw [known, recorded, Except.ok.injEq]

theorem verifyFile_of_wellFormed {source : Source}
    (opened : tree.openFile (PathName.join dir entry.name) = .ok source)
    {set : DigestSet} (digests : entry.digests = .ok set) :
    verifyFile tree dir entry = Validator.finishing set [] source := by
  rw [verifyFile_of_opened opened, digests]
  exact (Validator.passing_ofSource source set).finish_eq

theorem verifyFile_of_valid (valid : Valid tree dir entry) :
    ∃ count, verifyFile tree dir entry = .ok count := by
  obtain ⟨set, digests, known⟩ := digests_of_wellFormed valid.wellFormed
  obtain ⟨bytes, ⟨source, rest, opened, read⟩, has⟩ := valid.passes
  have passes : set.mismatch? bytes = none := by
    apply DigestSet.mismatch?_eq_none.mpr
    intro algorithm digest expected
    exact has algorithm digest ((known algorithm digest).mp expected)
  refine ⟨bytes.length, ?_⟩
  rw [verifyFile_of_wellFormed opened digests, Validator.finishing, read]
  simp only [List.nil_append, DigestSet.judge, passes]

/-- What is the matter with a file is what it is refused for. -/
theorem verifyFile_of_offence {error : VerifyError} (offence : Offence tree dir entry error) :
    verifyFile tree dir entry = .error error := by
  cases offence with
  | unopened failed => exact verifyFile_of_unopened failed
  | malformed opened malformed first =>
    rw [verifyFile_of_opened opened, FileEntry.digests_of_malformed malformed first]
    rfl
  | unread opened wellFormed stopped =>
    obtain ⟨set, digests, -⟩ := digests_of_wellFormed wellFormed
    rw [verifyFile_of_wellFormed opened digests, Validator.finishing, stopped]
    rfl
  | differs differs =>
    obtain ⟨set, digests, known⟩ := digests_of_wellFormed differs.wellFormed
    obtain ⟨bytes, ⟨source, rest, opened, read⟩, actual, earlier⟩ := differs.first
    have first : set.FirstMismatch bytes _ := {
      expected_eq := (known _ _).mpr differs.recorded_eq
      actual_eq := actual
      differs := differs.differs
      earlier := fun algorithm digest before expected =>
        earlier algorithm digest before ((known algorithm digest).mp expected) }
    rw [verifyFile_of_wellFormed opened digests, Validator.finishing, read]
    simp only [List.nil_append, DigestSet.judge, DigestSet.mismatch?_of_firstMismatch first]

theorem wellFormed_or_malformed (entry : FileEntry) :
    WellFormed entry ∨ ∃ (algorithm : Algorithm) (error : DigestError),
      algorithm.recorded (entry.digestText algorithm) = .error error ∧
      ∀ earlier : Algorithm, earlier.rank < algorithm.rank →
        ∃ digest, earlier.recorded (entry.digestText earlier) = .ok digest := by
  by_cases wellFormed : WellFormed entry
  · exact .inl wellFormed
  · right
    obtain ⟨algorithm, unread⟩ := not_forall.mp wellFormed
    -- the least rank of a malformed digest
    induction rank : algorithm.rank using Nat.strongRecOn generalizing algorithm with
    | ind count ih =>
      by_cases first : ∀ earlier : Algorithm, earlier.rank < algorithm.rank →
          ∃ digest, earlier.recorded (entry.digestText earlier) = .ok digest
      · cases malformed : algorithm.recorded (entry.digestText algorithm) with
        | error error => exact ⟨algorithm, error, malformed, first⟩
        | ok digest => exact absurd ⟨digest, malformed⟩ unread
      · obtain ⟨earlier, notFirst⟩ := not_forall.mp first
        obtain ⟨before, alsoUnread⟩ := Classical.not_imp.mp notFirst
        exact ih earlier.rank (rank ▸ before) earlier alsoUnread rfl

/-- Either a file is valid or something is the matter with it. -/
theorem valid_or_offence (tree : FileTree) (dir : String) (entry : FileEntry) :
    Valid tree dir entry ∨ ∃ error, Offence tree dir entry error := by
  cases opened : tree.openFile (PathName.join dir entry.name) with
  | error fault => exact .inr ⟨_, .unopened opened⟩
  | ok source =>
    rcases wellFormed_or_malformed entry with wellFormed | ⟨algorithm, error, malformed, first⟩
    · obtain ⟨bytes, rest, read | ⟨fault, stopped⟩⟩ := readToEnd_of_openFile opened
      · obtain ⟨set, digests, known⟩ := digests_of_wellFormed wellFormed
        have reads : Reads tree dir entry bytes := ⟨source, rest, opened, read⟩
        cases found : set.mismatch? bytes with
        | none =>
          refine .inl ⟨wellFormed, bytes, reads, fun algorithm digest recorded => ?_⟩
          exact DigestSet.mismatch?_eq_none.mp found algorithm digest
            ((known algorithm digest).mpr recorded)
        | some m =>
          have first := DigestSet.firstMismatch_of_mismatch? found
          refine .inr ⟨.mismatch m, .differs ⟨wellFormed, (known _ _).mp first.expected_eq,
            first.differs, bytes, reads, first.actual_eq, ?_⟩⟩
          intro earlier digest before recorded
          exact first.earlier earlier digest before ((known earlier digest).mpr recorded)
      · exact .inr ⟨.io fault, .unread opened wellFormed stopped⟩
    · exact .inr ⟨.digest error, .malformed opened malformed first⟩

theorem differs_of_isMismatch {error : VerifyError} (offence : Offence tree dir entry error)
    (isMismatch : error.isMismatch = true) :
    ∃ m, Differs tree dir entry m ∧ error = .mismatch m := by
  cases offence with
  | differs differs => exact ⟨_, differs, rfl⟩
  | _ => cases isMismatch

/-! ### All files -/

/-- The files of a listing that are verified: all but the listing itself. -/
def listed (dir : String) (listing : FileListing) : List FileEntry :=
  listing.files.filter (·.name != listingName dir)

/-- The first of some files with something the matter with it, and what that is. -/
structure FirstOffence (tree : FileTree) (dir : String) (before : List FileEntry)
    (entry : FileEntry) (error : VerifyError) : Prop where
  earlier : ∀ earlier ∈ before, Valid tree dir earlier
  offence : Offence tree dir entry error

theorem verify_eq {listing : FileListing}
    (opened : openListing tree (listingPath dir) = .ok listing) :
    verify tree dir = verifyFiles tree dir (listed dir listing) := by
  rw [verify, opened]
  show verifyFiles tree dir (listing.files.filter
    (·.name != (PathName.fileName? (listingPath dir)).getD "")) = _
  rw [ownName_eq, listed]

theorem verifyFiles_cons (tree : FileTree) (dir : String) (entry : FileEntry)
    (rest : List FileEntry) :
    verifyFiles tree dir (entry :: rest) = match verifyFile tree dir entry with
      | .error error => .error (.file entry.name error)
      | .ok _ => verifyFiles tree dir rest := by
  rfl

theorem verifyFiles_of_valid {entries : List FileEntry}
    (valid : ∀ entry ∈ entries, Valid tree dir entry) : verifyFiles tree dir entries = .ok () := by
  induction entries with
  | nil => rfl
  | cons entry rest ih =>
    obtain ⟨count, verified⟩ := verifyFile_of_valid (valid entry List.mem_cons_self)
    rw [verifyFiles_cons, verified]
    exact ih fun other member => valid other (List.mem_cons_of_mem _ member)

theorem verifyFiles_of_error {before : List FileEntry} {error : VerifyError}
    (earlier : ∀ earlier ∈ before, ∃ count, verifyFile tree dir earlier = .ok count)
    (failed : verifyFile tree dir entry = .error error) (after : List FileEntry) :
    verifyFiles tree dir (before ++ entry :: after) = .error (.file entry.name error) := by
  induction before with
  | nil => rw [List.nil_append, verifyFiles_cons, failed]
  | cons first before ih =>
    obtain ⟨count, verified⟩ := earlier first List.mem_cons_self
    rw [List.cons_append, verifyFiles_cons, verified]
    exact ih fun other member => earlier other (List.mem_cons_of_mem _ member)

theorem verifyFile_congr {other : FileTree}
    (same : other.openFile (PathName.join dir entry.name) =
      tree.openFile (PathName.join dir entry.name)) :
    verifyFile other dir entry = verifyFile tree dir entry := by
  rw [verifyFile, verifyFile, same]

/-- The first offence settles what comes of some files, wherever they are opened the same. -/
theorem FirstOffence.verifyFiles_eq {before : List FileEntry} {error : VerifyError}
    (first : FirstOffence tree dir before entry error) {other : FileTree}
    (same : ∀ found ∈ before ++ [entry], other.openFile (PathName.join dir found.name) =
      tree.openFile (PathName.join dir found.name)) (after : List FileEntry) :
    verifyFiles other dir (before ++ entry :: after) = .error (.file entry.name error) := by
  apply verifyFiles_of_error
  · intro earlier member
    rw [verifyFile_congr (same earlier (List.mem_append_left _ member))]
    exact verifyFile_of_valid (first.earlier earlier member)
  · rw [verifyFile_congr (same entry (by simp))]
    exact verifyFile_of_offence first.offence

theorem valid_or_first (tree : FileTree) (dir : String) (entries : List FileEntry) :
    (∀ entry ∈ entries, Valid tree dir entry) ∨ ∃ before entry after error,
      entries = before ++ entry :: after ∧ FirstOffence tree dir before entry error := by
  induction entries with
  | nil => exact .inl nofun
  | cons entry rest ih =>
    rcases valid_or_offence tree dir entry with valid | ⟨error, offence⟩
    · rcases ih with all | ⟨before, other, after, error, rfl, earlier, offence⟩
      · exact .inl (List.forall_mem_cons.mpr ⟨valid, all⟩)
      · exact .inr ⟨entry :: before, other, after, error, rfl,
          List.forall_mem_cons.mpr ⟨valid, earlier⟩, offence⟩
    · exact .inr ⟨[], entry, rest, error, rfl, nofun, offence⟩

/-- An item whose listing can be read is valid if all of its files are, and otherwise it is refused
for the first that is not, whatever comes behind that. A digest that differs is told from all other
offences. -/
theorem verify_outcome {listing : FileListing}
    (opened : openListing tree (listingPath dir) = .ok listing) :
    (verify tree dir = .ok () ↔ ∀ entry ∈ listed dir listing, Valid tree dir entry) ∧
    (∀ error, verify tree dir = .error error ↔ ∃ before entry after source,
      listed dir listing = before ++ entry :: after ∧ FirstOffence tree dir before entry source ∧
        error = .file entry.name source) ∧
    (∀ error, verify tree dir = .error error →
      (error.isMismatch = true ↔ ∃ before entry after m,
        listed dir listing = before ++ entry :: after ∧
          (∀ earlier ∈ before, Valid tree dir earlier) ∧ Differs tree dir entry m ∧
            error = .file entry.name (.mismatch m))) ∧
    ∀ before entry after source, listed dir listing = before ++ entry :: after →
      FirstOffence tree dir before entry source →
      ∀ (other : FileTree) (otherListing : FileListing) (otherAfter : List FileEntry),
        openListing other (listingPath dir) = .ok otherListing →
        listed dir otherListing = before ++ entry :: otherAfter →
        (∀ found ∈ before ++ [entry], other.openFile (PathName.join dir found.name) =
          tree.openFile (PathName.join dir found.name)) →
        verify other dir = verify tree dir := by
  have refused {before after : List FileEntry} {entry : FileEntry} {source : VerifyError}
      (split : listed dir listing = before ++ entry :: after)
      (first : FirstOffence tree dir before entry source) :
      verify tree dir = .error (.file entry.name source) := by
    rw [verify_eq opened, split]
    exact first.verifyFiles_eq (fun _ _ => rfl) after
  have accepted (valid : ∀ entry ∈ listed dir listing, Valid tree dir entry) :
      verify tree dir = .ok () := by
    rw [verify_eq opened]
    exact verifyFiles_of_valid valid
  have offender {error : VerifyError} (failed : verify tree dir = .error error) :
      ∃ before entry after source, listed dir listing = before ++ entry :: after ∧
        FirstOffence tree dir before entry source ∧ error = .file entry.name source := by
    rcases valid_or_first tree dir (listed dir listing) with
      valid | ⟨before, entry, after, source, split, first⟩
    · cases failed.symm.trans (accepted valid)
    · cases failed.symm.trans (refused split first)
      exact ⟨before, entry, after, source, split, first, rfl⟩
  refine ⟨⟨fun fine => ?_, accepted⟩, fun error => ⟨offender, ?_⟩, fun error failed => ?_, ?_⟩
  · rcases valid_or_first tree dir (listed dir listing) with
      valid | ⟨before, entry, after, source, split, first⟩
    · exact valid
    · cases fine.symm.trans (refused split first)
  · rintro ⟨before, entry, after, source, split, first, rfl⟩
    exact refused split first
  · constructor
    · intro isMismatch
      obtain ⟨before, entry, after, source, split, first, rfl⟩ := offender failed
      obtain ⟨m, differs, rfl⟩ := differs_of_isMismatch first.offence isMismatch
      exact ⟨before, entry, after, m, split, first.earlier, differs, rfl⟩
    · rintro ⟨before, entry, after, m, -, -, -, rfl⟩
      rfl
  · intro before entry after source split first other otherListing otherAfter alsoOpened
      alsoSplit same
    rw [refused split first, verify_eq alsoOpened, alsoSplit]
    exact first.verifyFiles_eq same otherAfter

/-- An item of three files with the same bytes. The checksum recorded for the second is that of
other bytes, and that for the third is malformed. -/
def smallItem : FileTree where
  files := [
    (["item", "item_files.xml"], Bytes.ofText (String.join [
      "<files><file name=\"a\"><crc32>a684c7c6</crc32></file>",
      "<file name=\"item_files.xml\"><crc32>00000000</crc32></file>",
      "<file name=\"b\"><md5> </md5><crc32>a684c7c7</crc32></file>",
      "<file name=\"c\"><md5>0</md5></file></files>"])),
    (["item", "a"], [48, 49, 50, 51, 52, 53, 54, 55, 56, 57]),
    (["item", "b"], [48, 49, 50, 51, 52, 53, 54, 55, 56, 57]),
    (["item", "c"], [48, 49, 50, 51, 52, 53, 54, 55, 56, 57])]

theorem verify_smallItem : ∃ listing, openListing smallItem (listingPath "item") = .ok listing ∧
    ∃ before entry after m, listed "item" listing = before ++ entry :: after ∧
      (∀ earlier ∈ before, Valid smallItem "item" earlier) ∧ Differs smallItem "item" entry m ∧
      entry.name = "b" ∧ m.algorithm = .crc32 := by
  have refused : verify smallItem "item" = .error (.file "b" (.mismatch
      ⟨.crc32, [166, 132, 199, 198], [166, 132, 199, 199]⟩)) := by
    decide +kernel
  have opens : (openListing smallItem (listingPath "item")).toOption.isSome = true := by
    decide +kernel
  cases opened : openListing smallItem (listingPath "item") with
  | error error =>
    rw [opened] at opens
    cases opens
  | ok listing =>
    obtain ⟨-, -, mismatches, -⟩ := verify_outcome opened
    obtain ⟨before, entry, after, m, split, valid, differs, same⟩ :=
      (mismatches _ refused).mp rfl
    obtain ⟨name, source⟩ := VerifyError.file.inj same
    have algorithm := congrArg Mismatch.algorithm (VerifyError.mismatch.inj source)
    exact ⟨listing, rfl, before, entry, after, m, split, valid, differs, name.symm,
      algorithm.symm⟩

end Item

end LinkArchive
