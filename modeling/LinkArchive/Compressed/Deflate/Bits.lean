import LinkArchive.Compressed.Expand

/-! The bits of the input, in each byte from the least significant up, and words of prefix codes. -/

namespace LinkArchive.Compressed

structure PrefixCode where
  counts : List Nat
  symbols : Array Nat

namespace PrefixCode

def maxLength : Nat := 15

def symbolsOf (lengths : List Nat) (length : Nat) : List Nat :=
  (lengths.zipIdx.filter (·.1 = length)).map (·.2)

def countsOf (lengths : List Nat) : List Nat :=
  (List.range (max 1 (lengths.foldl max 0))).map fun place => lengths.count (place + 1)

/-- The words of the greatest length that are left over, if there are no more words than fit. -/
def left? (left : Nat) : List Nat → Option Nat
  | [] => some left
  | count :: counts => if count ≤ 2 * left then left? (2 * left - count) counts else none

/-- The code of a complete set of lengths, or with leave of one that has a word of one bit or none.
Words of one length are consecutive, in the order of their symbols. -/
def ofLengths? (sparse : Bool) (lengths : List Nat) : Option PrefixCode :=
  let counts := countsOf lengths
  let code : PrefixCode :=
    ⟨counts, ((List.range maxLength).flatMap fun place => symbolsOf lengths (place + 1)).toArray⟩
  match left? 1 counts with
  | none => none
  | some 0 => some code
  | some _ => if sparse && counts.length = 1 then some code else none

end PrefixCode

/-! ### Taking bits -/

structure BitsLeft where
  count : Nat := 0
  value : Nat := 0

abbrev ExpandBits := StateT BitsLeft Expand

namespace ExpandBits

def bit : ExpandBits Nat := do
  let held ← get
  if held.count = 0 then
    let byte ← Expand.byte
    set { count := 7, value := byte.toNat / 2 : BitsLeft }
    return byte.toNat % 2
  else
    set { count := held.count - 1, value := held.value / 2 : BitsLeft }
    return held.value % 2

def number : Nat → ExpandBits Nat
  | 0 => pure 0
  | count + 1 => do
    let low ← bit
    return low + 2 * (← number count)

def align : ExpandBits Unit := set ({} : BitsLeft)

/-- `word` is what was taken, `first` the least word of that length and `index` its place among the
symbols. -/
def symbolFrom (symbols : Array Nat) : List Nat → (word first index : Nat) → ExpandBits Nat
  | [], _, _, _ => Expand.broken
  | count :: counts, word, first, index => do
    let word := 2 * word + (← bit)
    let first := 2 * first
    if word < first + count then return symbols.getD (index + (word - first)) 0
    else symbolFrom symbols counts word (first + count) (index + count)

def symbol (code : PrefixCode) : ExpandBits Nat := symbolFrom code.symbols code.counts 0 0 0

end ExpandBits

end LinkArchive.Compressed
