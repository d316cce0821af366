import LinkArchive.Compressed.Lzma.Coder

/-! What LZMA decisions add up to: literals, repetitions of earlier output, and an end mark. The
kinds of the last symbols and the last four distances choose the chances. -/

namespace LinkArchive.Compressed.Lzma

inductive Symbol where
  | literal (byte : UInt8)
  | repetition (distance length : Nat)
  | ending

/-! ### Where the chances are kept -/

def histories : Nat := 12

def lengthChances : Nat := 2 + 16 * (8 + 8) + 256

def matchPlace : Nat := 0

def recentPlace : Nat := matchPlace + 16 * histories

def olderPlace : Nat := recentPlace + histories

def olderStillPlace : Nat := olderPlace + histories

def oldestPlace : Nat := olderStillPlace + histories

/-- Whether more than one byte is repeated from the last distance. -/
def longPlace : Nat := oldestPlace + histories

def slotPlace : Nat := longPlace + 16 * histories

def lowPlace : Nat := slotPlace + 4 * 64

def alignPlace : Nat := lowPlace + 128

def lengthPlace : Nat := alignPlace + 16

def recentLengthPlace : Nat := lengthPlace + lengthChances

def literalPlace : Nat := recentLengthPlace + lengthChances

def literalChances : Nat := 0x300

def Coder.reset (coder : Coder) (properties : Properties) : Coder :=
  let contexts := Nat.pow 2 (properties.contextBits + properties.literalBits)
  { coder with
    properties
    chances := Array.replicate (literalPlace + literalChances * contexts) Coder.even
    history := 0
    recent := [0, 0, 0, 0] }

/-! ### Symbols -/

def position : Decode Nat := do return (← Expand.size) - (← get).start

def earlier (distance : Nat) : Decode UInt8 := do
  if distance < (← position) then Expand.back (distance + 1) else return 0

def reaches (distance : Nat) : Decode Bool := do
  return distance < min (← position) (← get).window

/-- A literal with the high bits of another byte so far. `path` is a one and the bits decided. -/
def literalLike (base : Nat) (other : UInt8) : Nat → Nat → Decode Nat
  | 0, path => pure path
  | count + 1, path => do
    let expected := (other.toNat >>> count) % 2
    let decided ← bit (base + 256 * (1 + expected) + path)
    let path := 2 * path + decided
    if decided = expected then literalLike base other count path
    else descend base count path

def literal : Decode Symbol := do
  let coder ← get
  let properties := coder.properties
  let before := (← earlier 0).toNat
  let place := (← position) % Nat.pow 2 properties.literalBits *
    Nat.pow 2 properties.contextBits + before / Nat.pow 2 (8 - properties.contextBits)
  let base := literalPlace + literalChances * place
  let path ←
    if coder.history < 7 then descend base 8 1
    else do literalLike base (← earlier (coder.recent.headD 0)) 8 1
  modify fun coder =>
    let history := coder.history
    { coder with
      history := if history < 4 then 0 else if history < 10 then history - 3 else history - 6 }
  return .literal (UInt8.ofNat path)

def length (base positionState : Nat) : Decode Nat := do
  if (← bit base) = 0 then return 2 + (← tree (base + 2 + 8 * positionState) 3)
  else if (← bit (base + 1)) = 0 then return 10 + (← tree (base + 130 + 8 * positionState) 3)
  else return 18 + (← tree (base + 258) 8)

def distance (length : Nat) : Decode Nat := do
  let slot ← tree (slotPlace + 64 * (min length 5 - 2)) 6
  if slot < 4 then return slot
  let count := slot / 2 - 1
  let high := 2 + slot % 2
  if slot < 14 then
    let base := high * Nat.pow 2 count
    return base + (← reverseTree (lowPlace + base - slot) count 1)
  else
    let upper ← direct (count - 4) high
    return upper * 16 + (← reverseTree alignPlace 4 1)

def note (first others : Nat) (recent : List Nat) : Decode Unit :=
  modify fun coder =>
    { coder with recent, history := if coder.history < 7 then first else others }

def endDistance : Nat := 0xffffffff

def newMatch (positionState : Nat) : Decode Symbol := do
  let length ← length lengthPlace positionState
  let distance ← distance length
  note 7 10 (distance :: (← get).recent.take 3)
  if distance = endDistance then return .ending
  Expand.require (← reaches distance)
  return .repetition (distance + 1) length

def recentPlaceOf (history : Nat) : Decode Nat := do
  if (← bit (olderPlace + history)) = 0 then return 0
  else if (← bit (olderStillPlace + history)) = 0 then return 1
  else return 2 + (← bit (oldestPlace + history))

def recentMatch (history positionState : Nat) : Decode Symbol := do
  Expand.require (← reaches 0)
  let place ← recentPlaceOf history
  let recent := (← get).recent
  let distance := recent.getD place 0
  let recent := distance :: recent.eraseIdx place
  let isLong ← if place = 0 then bit (longPlace + 16 * history + positionState) else pure 1
  if isLong = 0 then
    note 9 11 recent
    return .repetition (distance + 1) 1
  else
    let length ← length recentLengthPlace positionState
    note 8 11 recent
    return .repetition (distance + 1) length

def symbol : Decode Symbol := do
  let coder ← get
  let history := coder.history
  let positionState := (← position) % Nat.pow 2 coder.properties.positionBits
  if (← bit (matchPlace + 16 * history + positionState)) = 0 then literal
  else if (← bit (recentPlace + history)) = 0 then newMatch positionState
  else recentMatch history positionState

def sized : Nat → Decode Unit
  | 0 => pure ()
  | left + 1 => do
    Expand.makeRoom
    match ← symbol with
    | .ending => Expand.broken
    | .literal byte =>
      Expand.emit byte
      sized left
    | .repetition distance length =>
      Expand.copy distance (min length (left + 1))
      Expand.require (length ≤ left + 1)
      sized (left - (length - 1))
termination_by size => size

/-- A symbol takes four decisions or more, and each narrows the interval by at least a sixty-sixth
part, so a hundred symbols for each byte of input are enough. -/
def marked : Nat → Decode Unit
  | 0 => Expand.broken
  | fuel + 1 => do
    match ← symbol with
    | .ending => pure ()
    | .literal byte =>
      Expand.emit byte
      marked fuel
    | .repetition distance length =>
      Expand.copy distance length
      marked fuel

end LinkArchive.Compressed.Lzma
