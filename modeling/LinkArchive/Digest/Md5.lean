import LinkArchive.Digest.Block

/-! MD5: four words of chaining value, least significant byte first. -/

namespace LinkArchive.Digest.Md5

structure Words where
  a : UInt32
  b : UInt32
  c : UInt32
  d : UInt32

def constants : List UInt32 := [
  0xd76aa478, 0xe8c7b756, 0x242070db, 0xc1bdceee, 0xf57c0faf, 0x4787c62a,
  0xa8304613, 0xfd469501, 0x698098d8, 0x8b44f7af, 0xffff5bb1, 0x895cd7be,
  0x6b901122, 0xfd987193, 0xa679438e, 0x49b40821, 0xf61e2562, 0xc040b340,
  0x265e5a51, 0xe9b6c7aa, 0xd62f105d, 0x02441453, 0xd8a1e681, 0xe7d3fbc8,
  0x21e1cde6, 0xc33707d6, 0xf4d50d87, 0x455a14ed, 0xa9e3e905, 0xfcefa3f8,
  0x676f02d9, 0x8d2a4c8a, 0xfffa3942, 0x8771f681, 0x6d9d6122, 0xfde5380c,
  0xa4beea44, 0x4bdecfa9, 0xf6bb4b60, 0xbebfbc70, 0x289b7ec6, 0xeaa127fa,
  0xd4ef3085, 0x04881d05, 0xd9d4d039, 0xe6db99e5, 0x1fa27cf8, 0xc4ac5665,
  0xf4292244, 0x432aff97, 0xab9423a7, 0xfc93a039, 0x655b59c3, 0x8f0ccc92,
  0xffeff47d, 0x85845dd1, 0x6fa87e4f, 0xfe2ce6e0, 0xa3014314, 0x4e0811a1,
  0xf7537e82, 0xbd3af235, 0x2ad7d2bb, 0xeb86d391]

def turns : List UInt32 :=
  [[7, 12, 17, 22], [5, 9, 14, 20], [4, 11, 16, 23], [6, 10, 15, 21]].flatMap
    fun row => row ++ row ++ row ++ row

/-- The mixing function of a step, and the place of the message word that the step adds. -/
def mix (step : Nat) (w : Words) : UInt32 × Nat :=
  if step < 16 then ((w.b &&& w.c) ||| (~~~w.b &&& w.d), step)
  else if step < 32 then ((w.d &&& w.b) ||| (~~~w.d &&& w.c), (5 * step + 1) % 16)
  else if step < 48 then (w.b ^^^ w.c ^^^ w.d, (3 * step + 5) % 16)
  else (w.c ^^^ (w.b ||| ~~~w.d), 7 * step % 16)

def steps : List (Nat × UInt32 × UInt32) := (List.range 64).zip (constants.zip turns)

def step (words : Array UInt32) (w : Words) : Nat × UInt32 × UInt32 → Words
  | (number, constant, turn) =>
    let (mixed, place) := mix number w
    let sum := w.a + mixed + constant + words.getD place 0
    ⟨w.d, w.b + rotateLeft sum turn, w.b, w.c⟩

def messageWords : Bytes → List UInt32
  | b0 :: b1 :: b2 :: b3 :: rest =>
    (b0.toUInt32 ||| b1.toUInt32 <<< 8 ||| b2.toUInt32 <<< 16 ||| b3.toUInt32 <<< 24) ::
      messageWords rest
  | _ => []

def compress (w : Words) (block : Bytes) : Words :=
  let r := steps.foldl (step (messageWords block).toArray) w
  ⟨w.a + r.a, w.b + r.b, w.c + r.c, w.d + r.d⟩

end Md5

def md5 : BlockDigest Md5.Words where
  start := ⟨0x67452301, 0xefcdab89, 0x98badcfe, 0x10325476⟩
  compress := Md5.compress
  lengthField := Bytes.ofNatLittleEndian 8
  output w := [w.a, w.b, w.c, w.d].flatMap fun word => Bytes.ofNatLittleEndian 4 word.toNat

end LinkArchive.Digest
