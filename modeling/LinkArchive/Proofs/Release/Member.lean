import LinkArchive.Release.Member
import LinkArchive.Proofs.Files.PathName
import LinkArchive.Proofs.Text.Cut
import LinkArchive.Proofs.Text.Numeral

/-!
# What a name tells about a member

The ending of a name tells what a member is, whatever dots and slashes stand before it, and the
length of the shortcodes in a dump is the numeral between the last slash and the ending:
`MemberKind.ofName_outcome`.
-/

namespace LinkArchive

theorem Compression.ofExtension?_eq_some_iff {extension : String} {compression : Compression} :
    ofExtension? extension = some compression ↔ extension = compression.extension := by
  constructor
  · intro found
    unfold ofExtension? at found
    have same := List.find?_some found
    exact (eq_of_beq same).symm
  · rintro rfl
    exact ofExtension?_extension compression

theorem Compression.dot_not_mem_extension (compression : Compression) :
    '.' ∉ compression.extension.toList := by
  cases compression <;> decide +kernel

namespace MemberKind

variable {compression : Compression} {width : Option Nat}

/-- How the names of dumps of a compression end. -/
def ending (compression : Compression) : List Char :=
  dumpEnding.toList ++ '.' :: compression.extension.toList

/-- What stands between the last slash before the ending of a name, if there is one, and the
ending. -/
structure IsStem (ending name stem : List Char) : Prop where
  undivided : '/' ∉ stem
  behind : name = stem ++ ending ∨ ∃ dir, name = dir ++ '/' :: stem ++ ending

/-! ### The last part of a name -/

theorem baseName_eq_iff {path base : List Char} :
    baseName path = base ↔ '/' ∉ base ∧ (path = base ∨ ∃ dir, path = dir ++ '/' :: base) := by
  constructor
  · rintro rfl
    unfold baseName
    split
    · rename_i dir base split
      obtain ⟨whole, last⟩ := Text.eq_of_splitAtLast? split
      exact ⟨last, .inr ⟨dir, whole⟩⟩
    · rename_i none
      exact ⟨Text.not_mem_of_splitAtLast? none, .inl rfl⟩
  · rintro ⟨last, rfl | ⟨dir, rfl⟩⟩
    · rw [baseName, Text.splitAtLast?_of_not_mem last]
    · rw [baseName, Text.splitAtLast?_append dir last]

theorem ofBaseName_eq_dump_iff {base : List Char} :
    ofBaseName base = dump compression width ↔
      ∃ stem, base = stem ++ ending compression ∧ Text.word64? stem = width := by
  constructor
  · intro isDump
    unfold ofBaseName at isDump
    split at isDump
    · cases isDump
    · rename_i front extension split
      obtain ⟨rfl, -⟩ := Text.eq_of_splitAtLast? split
      split at isDump
      · rename_i found stem known dropped
        cases isDump
        have front_eq := Text.dropEnding?_eq_some_iff.mp dropped
        have extension_eq : extension = compression.extension.toList := by
          rw [← Compression.ofExtension?_eq_some_iff.mp known, String.toList_ofList]
        exact ⟨stem, by rw [front_eq, extension_eq, ending, List.append_assoc], rfl⟩
      · cases isDump
  · rintro ⟨stem, rfl, rfl⟩
    have split := Text.splitAtLast?_append (stem ++ dumpEnding.toList)
      (Compression.dot_not_mem_extension compression)
    rw [List.append_assoc] at split
    have dropped : Text.dropEnding? dumpEnding.toList (stem ++ dumpEnding.toList) = some stem :=
      Text.dropEnding?_eq_some_iff.mpr rfl
    rw [ofBaseName, ending, split]
    simp only [String.ofList_toList, Compression.ofExtension?_extension, dropped]

theorem slash_not_mem_ending (compression : Compression) : '/' ∉ ending compression := by
  cases compression <;> decide +kernel

/-- A dump is told by the stem of its name. -/
theorem ofBaseName_baseName_eq_dump_iff {name : List Char} :
    ofBaseName (baseName name) = dump compression width ↔
      ∃ stem, IsStem (ending compression) name stem ∧ Text.word64? stem = width := by
  rw [ofBaseName_eq_dump_iff]
  constructor
  · rintro ⟨stem, base, read⟩
    obtain ⟨undivided, behind⟩ := baseName_eq_iff.mp base
    rw [List.mem_append, not_or] at undivided
    refine ⟨stem, ⟨undivided.1, ?_⟩, read⟩
    simpa using behind
  · rintro ⟨stem, ⟨undivided, behind⟩, read⟩
    refine ⟨stem, baseName_eq_iff.mpr ⟨?_, ?_⟩, read⟩
    · rw [List.mem_append, not_or]
      exact ⟨undivided, slash_not_mem_ending compression⟩
    · simpa using behind

/-! ### Endings -/

theorem exists_isStem_iff {name : List Char} :
    (∃ stem, IsStem (ending compression) name stem) ↔ ending compression <:+ name := by
  constructor
  · rintro ⟨stem, -, rfl | ⟨dir, rfl⟩⟩
    · exact List.suffix_append _ _
    · exact List.suffix_append _ _
  · rintro ⟨front, rfl⟩
    obtain ⟨undivided, behind⟩ := baseName_eq_iff.mp (Eq.refl (baseName front))
    refine ⟨baseName front, undivided, ?_⟩
    rcases behind with same | ⟨dir, whole⟩
    · exact .inl (congrArg (· ++ ending compression) same)
    · exact .inr ⟨dir, congrArg (· ++ ending compression) whole⟩

/-- No name ends like a metadata document and like a dump. -/
theorem not_metadata_of_ending {name : List Char} (ends : ending compression <:+ name) :
    ¬metadataEnding.toList <:+ name := by
  intro alsoEnds
  have shorter : (ending compression).length ≤ metadataEnding.toList.length := by
    cases compression <;> decide +kernel
  have inside := List.suffix_of_suffix_length_le ends alsoEnds shorter
  revert inside
  cases compression <;> decide +kernel

theorem ofBaseName_ne_metadata (base : List Char) : ofBaseName base ≠ metadata := by
  unfold ofBaseName
  split
  · nofun
  · split <;> nofun

theorem ofName_eq_metadata_iff {name : String} :
    ofName name = metadata ↔ metadataEnding.toList <:+ name.toList := by
  rw [ofName, ← List.isSuffixOf_iff_suffix]
  split
  · rename_i ends
    exact iff_of_true rfl ends
  · rename_i otherwise
    exact iff_of_false (ofBaseName_ne_metadata _) otherwise

theorem ofName_eq_dump_iff {name : String} :
    ofName name = dump compression width ↔
      ∃ stem, IsStem (ending compression) name.toList stem ∧ Text.word64? stem = width := by
  rw [← ofBaseName_baseName_eq_dump_iff, ofName]
  split
  · rename_i ends
    refine iff_of_false nofun fun isDump => ?_
    obtain ⟨stem, isStem, -⟩ := ofBaseName_baseName_eq_dump_iff.mp isDump
    exact not_metadata_of_ending (exists_isStem_iff.mp ⟨stem, isStem⟩)
      (List.isSuffixOf_iff_suffix.mp ends)
  · exact Iff.rfl

theorem exists_ofName_eq_dump_iff {name : String} :
    (∃ width, ofName name = dump compression width) ↔ ending compression <:+ name.toList := by
  simp only [ofName_eq_dump_iff, ← exists_isStem_iff]
  constructor
  · rintro ⟨-, stem, isStem, -⟩
    exact ⟨stem, isStem⟩
  · rintro ⟨stem, isStem⟩
    exact ⟨_, stem, isStem, rfl⟩

theorem ofName_eq_other_iff {name : String} :
    ofName name = other ↔ ofName name ≠ metadata ∧
      ∀ compression, ¬∃ width, ofName name = dump compression width := by
  cases ofName name <;> simp

/-- A name that ends like a metadata document is that of one, a name that ends like a dump of some
compression that of such a dump, and every other name that of something else. The width of a dump
is the number that the stem of its name is a numeral of, if it is one and the number fits in a
word. -/
theorem ofName_outcome (name : String) :
    (ofName name = metadata ↔ ".meta.json.xz".toList <:+ name.toList) ∧
    ((∃ width, ofName name = dump .xz width) ↔ ".txt.xz".toList <:+ name.toList) ∧
    ((∃ width, ofName name = dump .gzip width) ↔ ".txt.gz".toList <:+ name.toList) ∧
    (ofName name = other ↔ ¬".meta.json.xz".toList <:+ name.toList ∧
      ¬".txt.xz".toList <:+ name.toList ∧ ¬".txt.gz".toList <:+ name.toList) ∧
    ∀ compression width, ofName name = dump compression width ↔
      ∃ stem, IsStem (".txt." ++ compression.extension).toList name.toList stem ∧
        ∀ value, width = some value ↔ Text.IsNumeral stem value ∧ value < 2 ^ 64 := by
  have xz : ending .xz = ".txt.xz".toList := by decide +kernel
  have gzip : ending .gzip = ".txt.gz".toList := by decide +kernel
  refine ⟨ofName_eq_metadata_iff, ?_, ?_, ?_, fun compression width => ?_⟩
  · rw [exists_ofName_eq_dump_iff, xz]
  · rw [exists_ofName_eq_dump_iff, gzip]
  · rw [ofName_eq_other_iff, Ne, ofName_eq_metadata_iff, ← xz, ← gzip]
    simp only [exists_ofName_eq_dump_iff]
    exact and_congr_right fun _ => ⟨fun no => ⟨no .xz, no .gzip⟩, fun ⟨noXz, noGzip⟩ compression =>
      match compression with
      | .xz => noXz
      | .gzip => noGzip⟩
  · have same : (".txt." ++ compression.extension).toList = ending compression := by
      cases compression <;> decide +kernel
    rw [ofName_eq_dump_iff, same]
    refine exists_congr fun stem => and_congr_right fun _ => ?_
    simp only [← Text.word64?_eq_some_iff]
    exact ⟨fun read value => by rw [read], fun read => Option.ext fun value => (read value).symm⟩

example : ofName "isgd.meta.json.xz/+0016.txt.gz" = dump .gzip (some 16) ∧
    ofName "+.txt.xz" = dump .xz none := by decide +kernel

end MemberKind

end LinkArchive
