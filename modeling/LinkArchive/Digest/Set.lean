import LinkArchive.Digest.Algorithm
import LinkArchive.Text.Cut
import LinkArchive.Text.Numeral
import LinkArchive.Text.Quoted

/-! At most one digest for each algorithm, of the length that the algorithm has. -/

namespace LinkArchive

abbrev Digest.Value (algorithm : Algorithm) : Type :=
  { bytes : Bytes // bytes.length = algorithm.size }

inductive DigestError where
  | wrongLength (algorithm : Algorithm) (expected actual : Nat)
  | badHex (error : Text.HexError)
  deriving DecidableEq, Repr

def Text.HexError.message : Text.HexError → String
  | .oddLength => "Odd number of digits"
  | .badDigit byte position =>
    "Invalid character " ++ Text.quotedChar (Char.ofNat byte.toNat) ++ " at position " ++
      toString position

def DigestError.message : DigestError → String
  | .wrongLength algorithm expected actual =>
    algorithm.name ++ " digest must be " ++ toString expected ++ " bytes, got " ++ toString actual
  | .badHex error => "invalid hex digest: " ++ error.message

structure DigestSet where
  md5 : Option (Digest.Value .md5) := none
  sha1 : Option (Digest.Value .sha1) := none
  crc32 : Option (Digest.Value .crc32) := none
  deriving DecidableEq

namespace DigestSet

def empty : DigestSet := {}

def slot (set : DigestSet) : (algorithm : Algorithm) → Option (Digest.Value algorithm)
  | .md5 => set.md5
  | .sha1 => set.sha1
  | .crc32 => set.crc32

def get? (set : DigestSet) (algorithm : Algorithm) : Option Bytes :=
  (set.slot algorithm).map Subtype.val

def put (set : DigestSet) : (algorithm : Algorithm) → Digest.Value algorithm → DigestSet
  | .md5, value => { set with md5 := some value }
  | .sha1, value => { set with sha1 := some value }
  | .crc32, value => { set with crc32 := some value }

/-- No bytes leave the set as it is. -/
def set (set : DigestSet) (algorithm : Algorithm) (bytes : Bytes) :
    Except DigestError DigestSet :=
  if bytes.isEmpty then .ok set
  else if length_eq : bytes.length = algorithm.size then .ok (set.put algorithm ⟨bytes, length_eq⟩)
  else .error (.wrongLength algorithm algorithm.size bytes.length)

/-- A blank text leaves the set as it is. -/
def setHex (set : DigestSet) (algorithm : Algorithm) (text : String) :
    Except DigestError DigestSet :=
  let digits := Text.trim text
  if digits.isEmpty then .ok set
  else match Text.ofHex digits with
    | .error error => .error (.badHex error)
    | .ok bytes => set.set algorithm bytes

def withCrc32 (set : DigestSet) (checksum : UInt32) : DigestSet :=
  set.put .crc32 ⟨Algorithm.checksumBytes checksum, by
    simp [Algorithm.checksumBytes, Bytes.ofNatBigEndian, Algorithm.size]⟩

def toList (set : DigestSet) : List (Algorithm × Bytes) :=
  Algorithm.all.filterMap fun algorithm => (set.get? algorithm).map (algorithm, ·)

def isEmpty (set : DigestSet) : Bool := set.md5.isNone && set.sha1.isNone && set.crc32.isNone

/-- The digests of `other` go before those of `set`. -/
def merge (set other : DigestSet) : DigestSet where
  md5 := other.md5.or set.md5
  sha1 := other.sha1.or set.sha1
  crc32 := other.crc32.or set.crc32

@[simp] theorem slot_put_self (set : DigestSet) (algorithm : Algorithm)
    (value : Digest.Value algorithm) : (set.put algorithm value).slot algorithm = some value := by
  cases algorithm <;> rfl

theorem slot_put_of_ne (set : DigestSet) {algorithm other : Algorithm}
    (value : Digest.Value algorithm) (different : other ≠ algorithm) :
    (set.put algorithm value).slot other = set.slot other := by
  cases algorithm <;> cases other <;> simp_all [slot, put]

@[simp] theorem slot_merge (set other : DigestSet) (algorithm : Algorithm) :
    (set.merge other).slot algorithm = (other.slot algorithm).or (set.slot algorithm) := by
  cases algorithm <;> rfl

end DigestSet

end LinkArchive
