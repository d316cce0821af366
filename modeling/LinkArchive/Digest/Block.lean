import LinkArchive.Bytes

/-! A message is padded to whole blocks of 64 bytes and the blocks are folded into a chaining value.
A run takes it byte by byte, however it arrives: `BlockDigest.update_append`. -/

namespace LinkArchive.Digest

structure BlockDigest (χ : Type) where
  start : χ
  compress : χ → Bytes → χ
  /-- The length of the message in bits, as the eight bytes that end the padding. -/
  lengthField : Nat → Bytes
  output : χ → Bytes

def blockSize : Nat := 64

/-- A shorter tail is left out. -/
def blocks (bytes : Bytes) : List Bytes :=
  if _h : (bytes.take blockSize).length < blockSize then []
  else bytes.take blockSize :: blocks (bytes.drop blockSize)
termination_by bytes.length
decreasing_by
  simp only [blockSize, List.length_take, List.length_drop] at _h ⊢
  omega

namespace BlockDigest

variable {χ : Type}

def padding (d : BlockDigest χ) (length : Nat) : Bytes :=
  0x80 :: List.replicate ((119 - length % blockSize) % blockSize) 0 ++ d.lengthField (8 * length)

def digest (d : BlockDigest χ) (message : Bytes) : Bytes :=
  d.output ((blocks (message ++ d.padding message.length)).foldl d.compress d.start)

structure Run (χ : Type) where
  chain : χ
  pending : Bytes
  length : Nat

def begin (d : BlockDigest χ) : Run χ := ⟨d.start, [], 0⟩

def push (d : BlockDigest χ) (run : Run χ) (byte : UInt8) : Run χ :=
  let block := run.pending ++ [byte]
  if block.length < blockSize then { run with pending := block, length := run.length + 1 }
  else ⟨d.compress run.chain block, [], run.length + 1⟩

def update (d : BlockDigest χ) (run : Run χ) (bytes : Bytes) : Run χ := bytes.foldl d.push run

def finish (d : BlockDigest χ) (run : Run χ) : Bytes :=
  d.output (d.update run (d.padding run.length)).chain

theorem update_append (d : BlockDigest χ) (run : Run χ) (first second : Bytes) :
    d.update run (first ++ second) = d.update (d.update run first) second :=
  List.foldl_append ..

end BlockDigest

def rotateLeft (word count : UInt32) : UInt32 := word <<< count ||| word >>> (32 - count)

end LinkArchive.Digest
