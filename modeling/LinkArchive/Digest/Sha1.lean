import LinkArchive.Digest.Block

/-! SHA-1: five words of chaining value, most significant byte first. -/

namespace LinkArchive.Digest.Sha1

structure Words where
  a : UInt32
  b : UInt32
  c : UInt32
  d : UInt32
  e : UInt32

def messageWords : Bytes → List UInt32
  | b0 :: b1 :: b2 :: b3 :: rest =>
    (b0.toUInt32 <<< 24 ||| b1.toUInt32 <<< 16 ||| b2.toUInt32 <<< 8 ||| b3.toUInt32) ::
      messageWords rest
  | _ => []

def extend (schedule : Array UInt32) : Array UInt32 :=
  let back (distance : Nat) : UInt32 := schedule.getD (schedule.size - distance) 0
  schedule.push (rotateLeft (back 3 ^^^ back 8 ^^^ back 14 ^^^ back 16) 1)

def schedule (block : Bytes) : Array UInt32 :=
  (List.range 64).foldl (fun words _ => extend words) (messageWords block).toArray

def mix (step : Nat) (w : Words) : UInt32 × UInt32 :=
  if step < 20 then ((w.b &&& w.c) ||| (~~~w.b &&& w.d), 0x5a827999)
  else if step < 40 then (w.b ^^^ w.c ^^^ w.d, 0x6ed9eba1)
  else if step < 60 then ((w.b &&& w.c) ||| (w.b &&& w.d) ||| (w.c &&& w.d), 0x8f1bbcdc)
  else (w.b ^^^ w.c ^^^ w.d, 0xca62c1d6)

def step (words : Array UInt32) (w : Words) (number : Nat) : Words :=
  let (mixed, constant) := mix number w
  let sum := rotateLeft w.a 5 + mixed + w.e + constant + words.getD number 0
  ⟨sum, w.a, rotateLeft w.b 30, w.c, w.d⟩

def compress (w : Words) (block : Bytes) : Words :=
  let r := (List.range 80).foldl (step (schedule block)) w
  ⟨w.a + r.a, w.b + r.b, w.c + r.c, w.d + r.d, w.e + r.e⟩

end Sha1

def sha1 : BlockDigest Sha1.Words where
  start := ⟨0x67452301, 0xefcdab89, 0x98badcfe, 0x10325476, 0xc3d2e1f0⟩
  compress := Sha1.compress
  lengthField := Bytes.ofNatBigEndian 8
  output w := [w.a, w.b, w.c, w.d, w.e].flatMap fun word => Bytes.ofNatBigEndian 4 word.toNat

end LinkArchive.Digest
