import LinkArchive.Source

/-! Splitting a source into lines that end with LF, CR, or CR LF. The last one may have no end. -/

namespace LinkArchive.Dump

def lf : UInt8 := 10

def cr : UInt8 := 13

def isTerminator (byte : UInt8) : Bool := byte == lf || byte == cr

def byteOrderMark : Bytes := [0xef, 0xbb, 0xbf]

inductive LineResult where
  | line (bytes : Bytes)
  | ended
  /-- A failure before the line was complete; what there was of it is lost. -/
  | failed (error : ReadError)
  deriving DecidableEq, Repr

def LineResult.prepend (bytes : Bytes) : LineResult → LineResult
  | line rest => line (bytes ++ rest)
  | ended => if bytes.isEmpty then ended else line bytes
  | failed error => failed error

structure Lines where
  source : Source
  /-- The last line ended with CR, so an LF that comes next belongs to it. -/
  afterCr : Bool := false
  number : Nat := 0

namespace Lines

/-- The next line as the source has it, and whether it ended with CR. -/
def scan (afterCr : Bool) : Source → LineResult × Bool × Source
  | [] => (.ended, afterCr, [])
  | .failure error :: rest =>
    if error.isInterrupted then scan afterCr rest else (.failed error, afterCr, rest)
  | .chunk [] :: rest => (.ended, afterCr, rest)
  | .chunk (first :: bytes) :: rest =>
    let data := if afterCr && first == lf then bytes else first :: bytes
    let text := data.takeWhile (!isTerminator ·)
    match data.dropWhile (!isTerminator ·) with
    | terminator :: more => (.line text, terminator == cr, Source.putBack more rest)
    | [] =>
      let (result, state) := scan false rest
      (result.prepend text, state)

theorem weight_putBack_le (bytes : Bytes) (rest : Source) :
    (Source.putBack bytes rest).weight ≤ rest.weight + bytes.length + 1 := by
  unfold Source.putBack
  split
  · omega
  · simp [Source.weight]

theorem weight_scan (afterCr : Bool) (source : Source) :
    (scan afterCr source).2.2.weight ≤ source.weight ∧
      ((scan afterCr source).1 ≠ .ended → (scan afterCr source).2.2.weight < source.weight) := by
  fun_induction scan afterCr source with
  | case1 => simp
  | case2 _ _ _ _ ih => simp only [Source.weight]; omega
  | case3 => simp only [Source.weight]; omega
  | case4 => simp only [Source.weight]; omega
  | case5 afterCr first bytes rest data text terminator more found =>
    have cut : text ++ terminator :: more = data := by
      rw [← found]
      exact List.takeWhile_append_dropWhile
    have bound : data.length ≤ bytes.length + 1 := by
      simp only [data]
      split <;> simp
    rw [← cut] at bound
    have put := weight_putBack_le more rest
    simp only [List.length_append, List.length_cons] at bound
    simp only [Source.weight, List.length_cons]
    omega
  | case6 _ _ _ _ _ _ _ _ _ scanned ih =>
    rw [scanned] at ih
    simp only [Source.weight] at ih ⊢
    omega

def dropMark (line : Bytes) : Bytes :=
  if byteOrderMark.isPrefixOf line then line.drop byteOrderMark.length else line

def next (lines : Lines) : LineResult × Lines :=
  match scan lines.afterCr lines.source with
  | (.line text, afterCr, source) =>
    let line := if lines.number = 0 then dropMark text else text
    (.line line, ⟨source, afterCr, lines.number + 1⟩)
  | (result, afterCr, source) => (result, ⟨source, afterCr, lines.number⟩)

theorem weight_next (lines : Lines) :
    lines.next.2.source.weight ≤ lines.source.weight ∧
      (lines.next.1 ≠ .ended → lines.next.2.source.weight < lines.source.weight) := by
  have scanned := weight_scan lines.afterCr lines.source
  unfold next
  split <;> simp_all

end Lines

end LinkArchive.Dump
