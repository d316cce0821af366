import LinkArchive.Digest.Block
import LinkArchive.Digest.Sha1

/-! SHA-256: eight words of chaining value, most significant byte first. -/

namespace LinkArchive.Digest.Sha256

structure Words where
  a : UInt32
  b : UInt32
  c : UInt32
  d : UInt32
  e : UInt32
  f : UInt32
  g : UInt32
  h : UInt32

def constants : List UInt32 := [
  0x428a2f98, 0x71374491, 0xb5c0fbcf, 0xe9b5dba5, 0x3956c25b, 0x59f111f1,
  0x923f82a4, 0xab1c5ed5, 0xd807aa98, 0x12835b01, 0x243185be, 0x550c7dc3,
  0x72be5d74, 0x80deb1fe, 0x9bdc06a7, 0xc19bf174, 0xe49b69c1, 0xefbe4786,
  0x0fc19dc6, 0x240ca1cc, 0x2de92c6f, 0x4a7484aa, 0x5cb0a9dc, 0x76f988da,
  0x983e5152, 0xa831c66d, 0xb00327c8, 0xbf597fc7, 0xc6e00bf3, 0xd5a79147,
  0x06ca6351, 0x14292967, 0x27b70a85, 0x2e1b2138, 0x4d2c6dfc, 0x53380d13,
  0x650a7354, 0x766a0abb, 0x81c2c92e, 0x92722c85, 0xa2bfe8a1, 0xa81a664b,
  0xc24b8b70, 0xc76c51a3, 0xd192e819, 0xd6990624, 0xf40e3585, 0x106aa070,
  0x19a4c116, 0x1e376c08, 0x2748774c, 0x34b0bcb5, 0x391c0cb3, 0x4ed8aa4a,
  0x5b9cca4f, 0x682e6ff3, 0x748f82ee, 0x78a5636f, 0x84c87814, 0x8cc70208,
  0x90befffa, 0xa4506ceb, 0xbef9a3f7, 0xc67178f2]

def rotateRight (word count : UInt32) : UInt32 := rotateLeft word (32 - count)

def extend (schedule : Array UInt32) : Array UInt32 :=
  let back (distance : Nat) : UInt32 := schedule.getD (schedule.size - distance) 0
  let near := back 2
  let far := back 15
  schedule.push (back 16 + (rotateRight far 7 ^^^ rotateRight far 18 ^^^ far >>> 3) + back 7 +
    (rotateRight near 17 ^^^ rotateRight near 19 ^^^ near >>> 10))

def schedule (block : Bytes) : List UInt32 :=
  ((List.range 48).foldl (fun words _ => extend words) (Sha1.messageWords block).toArray).toList

def step (w : Words) : UInt32 × UInt32 → Words
  | (constant, word) =>
    let choice := (w.e &&& w.f) ^^^ (~~~w.e &&& w.g)
    let majority := (w.a &&& w.b) ^^^ (w.a &&& w.c) ^^^ (w.b &&& w.c)
    let first := w.h + (rotateRight w.e 6 ^^^ rotateRight w.e 11 ^^^ rotateRight w.e 25) + choice +
      constant + word
    let second := (rotateRight w.a 2 ^^^ rotateRight w.a 13 ^^^ rotateRight w.a 22) + majority
    ⟨first + second, w.a, w.b, w.c, w.d + first, w.e, w.f, w.g⟩

def compress (w : Words) (block : Bytes) : Words :=
  let r := (constants.zip (schedule block)).foldl step w
  ⟨w.a + r.a, w.b + r.b, w.c + r.c, w.d + r.d, w.e + r.e, w.f + r.f, w.g + r.g, w.h + r.h⟩

end Sha256

def sha256 : BlockDigest Sha256.Words where
  start := ⟨0x6a09e667, 0xbb67ae85, 0x3c6ef372, 0xa54ff53a, 0x510e527f, 0x9b05688c, 0x1f83d9ab,
    0x5be0cd19⟩
  compress := Sha256.compress
  lengthField := Bytes.ofNatBigEndian 8
  output w := [w.a, w.b, w.c, w.d, w.e, w.f, w.g, w.h].flatMap fun word =>
    Bytes.ofNatBigEndian 4 word.toNat

end LinkArchive.Digest
