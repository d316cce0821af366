import LinkArchive.Compressed
import LinkArchive.Text.Cut
import LinkArchive.Text.Numeral
import LinkArchive.Zip.Entry

/-! What an entry of a container holds is judged by its name. -/

namespace LinkArchive

inductive MemberKind where
  | metadata
  /-- A dump with shortcodes of `width` characters, if the name tells. -/
  | dump (compression : Compression) (width : Option Nat)
  | other
  deriving DecidableEq, Repr

namespace MemberKind

def metadataEnding : String := ".meta.json.xz"

def dumpEnding : String := ".txt"

def baseName (path : List Char) : List Char :=
  match Text.splitAtLast? '/' path with
  | some (_, base) => base
  | none => path

/-- The kind that the last part of a name tells, where it is not that of the metadata. -/
def ofBaseName (base : List Char) : MemberKind :=
  match Text.splitAtLast? '.' base with
  | none => other
  | some (stem, extension) =>
    match Compression.ofExtension? (String.ofList extension),
        Text.dropEnding? dumpEnding.toList stem with
    | some compression, some width => dump compression (Text.word64? width)
    | _, _ => other

def ofName (name : String) : MemberKind :=
  if metadataEnding.toList.isSuffixOf name.toList then metadata
  else ofBaseName (baseName name.toList)

def isDump : MemberKind → Bool
  | dump .. => true
  | _ => false

end MemberKind

namespace Zip.Entry

def kind (entry : Entry) : MemberKind := MemberKind.ofName entry.name

end Zip.Entry

end LinkArchive
