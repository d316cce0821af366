import LinkArchive.Digest.Crc
import LinkArchive.Digest.Md5
import LinkArchive.Digest.Sha1

/-! The digest of a message under each algorithm, and digests in the making. -/

namespace LinkArchive

/-- In the order in which digests are checked. -/
inductive Algorithm where
  | md5
  | sha1
  | crc32
  deriving DecidableEq, Repr

namespace Algorithm

def all : List Algorithm := [md5, sha1, crc32]

def name : Algorithm → String
  | md5 => "MD5"
  | sha1 => "SHA1"
  | crc32 => "CRC32"

def size : Algorithm → Nat
  | md5 => 16
  | sha1 => 20
  | crc32 => 4

def checksumBytes (checksum : UInt32) : Bytes := Bytes.ofNatBigEndian 4 checksum.toNat

def digest : Algorithm → Bytes → Bytes
  | md5, message => Digest.md5.digest message
  | sha1, message => Digest.sha1.digest message
  | crc32, message => checksumBytes (Digest.Crc32.checksum message)

end Algorithm

inductive Hasher where
  | md5 (run : Digest.BlockDigest.Run Digest.Md5.Words)
  | sha1 (run : Digest.BlockDigest.Run Digest.Sha1.Words)
  | crc32 (remainder : UInt32)

namespace Hasher

def ofAlgorithm : Algorithm → Hasher
  | .md5 => .md5 Digest.md5.begin
  | .sha1 => .sha1 Digest.sha1.begin
  | .crc32 => .crc32 Digest.Crc32.start

def update : Hasher → Bytes → Hasher
  | .md5 run, bytes => .md5 (Digest.md5.update run bytes)
  | .sha1 run, bytes => .sha1 (Digest.sha1.update run bytes)
  | .crc32 remainder, bytes => .crc32 (Digest.Crc32.update remainder bytes)

def finish : Hasher → Bytes
  | .md5 run => Digest.md5.finish run
  | .sha1 run => Digest.sha1.finish run
  | .crc32 remainder => Algorithm.checksumBytes (Digest.Crc32.finish remainder)

@[simp] theorem update_nil (hasher : Hasher) : hasher.update [] = hasher := by cases hasher <;> rfl

theorem update_append (hasher : Hasher) (first second : Bytes) :
    hasher.update (first ++ second) = (hasher.update first).update second := by
  cases hasher <;> simp [update, Digest.BlockDigest.update_append, Digest.Crc32.update_append]

end Hasher

end LinkArchive
