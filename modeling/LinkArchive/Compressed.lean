import LinkArchive.Compressed.Gzip
import LinkArchive.Compressed.Xz

/-! The compressions that dumps are found in, and the expansion of data in each. -/

namespace LinkArchive

inductive Compression where
  | xz
  | gzip
  deriving DecidableEq, Repr

namespace Compression

def all : List Compression := [xz, gzip]

def extension : Compression → String
  | xz => "xz"
  | gzip => "gz"

def name : Compression → String
  | xz => "xz"
  | gzip => "gzip"

def ofExtension? (extension : String) : Option Compression :=
  all.find? fun compression => compression.extension == extension

theorem ofExtension?_extension (compression : Compression) :
    ofExtension? compression.extension = some compression := by
  cases compression <;> decide +kernel

/-- What records are read through asks for so many bytes at a time. -/
def readSize : Nat := 8192

def expand : Compression → Bytes → Expansion
  | xz, data => Compressed.Xz.expand readSize data
  | gzip, data => Compressed.Gzip.expand data

end Compression

end LinkArchive
