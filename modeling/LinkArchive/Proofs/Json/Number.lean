import LinkArchive.Json.Scalar
import LinkArchive.Proofs.Json.Document

/-!
# Numbers in JSON documents

A number is read to its end and no further: `NumberLiteral.number_of_literal`. What it is read as
depends on the literal alone. Integers are read exactly if they have 64 bits, and whatever else is
written becomes a double: `NumberLiteral.number?_eq_natural_iff`,
`NumberLiteral.number?_eq_negative_iff`.
-/

namespace LinkArchive.Json

variable {cut : Bool} {rest : Bytes}

/-! ### Digits -/

theorem isDigit_byte (digit : Digit) : isDigit digit.byte = true := by
  revert digit
  decide

theorem digitValue_byte (digit : Digit) : digitValue digit.byte = digit.val := by
  revert digit
  decide

theorem byte_eq_zero_iff (digit : Digit) : digit.byte = 48 ↔ digit = 0 := by
  revert digit
  decide

theorem byte_ne_of_other {byte : UInt8} (other : isDigit byte = false) (digit : Digit) :
    digit.byte ≠ byte := by
  rintro rfl
  rw [isDigit_byte] at other
  cases other

theorem isDigit_of_mem {digits : List Digit} {byte : UInt8} (member : byte ∈ digitBytes digits) :
    isDigit byte = true := by
  obtain ⟨digit, -, rfl⟩ := List.mem_map.mp member
  exact isDigit_byte digit

theorem takeWhile_digitBytes (digits : List Digit) (other : rest.head?.any isDigit = false) :
    (digitBytes digits ++ rest).takeWhile isDigit = digitBytes digits ∧
      (digitBytes digits ++ rest).dropWhile isDigit = rest := by
  rw [List.takeWhile_append_of_pos fun _ => isDigit_of_mem,
    List.dropWhile_append_of_pos fun _ => isDigit_of_mem]
  cases rest with
  | nil => simp
  | cons byte rest =>
    have other : isDigit byte = false := other
    simp [other]

theorem le_valueFrom (value : Nat) (digits : List Digit) : value ≤ valueFrom value digits := by
  induction digits generalizing value with
  | nil => exact Nat.le_refl _
  | cons digit digits ih => exact Nat.le_trans (by omega) (ih (10 * value + digit.val))

/-- Digits are appended one by one, unless the number gets too large for them all. -/
theorem appendDigits_digitBytes (limit value taken : Nat) (digits : List Digit) :
    if valueFrom value digits < limit ∨ digits = [] then
      appendDigits limit value taken (digitBytes digits) =
        (valueFrom value digits, taken + digits.length, false)
    else (appendDigits limit value taken (digitBytes digits)).2.1 < taken + digits.length := by
  induction digits generalizing value taken with
  | nil => simp [digitBytes, appendDigits, valueFrom]
  | cons digit digits ih =>
    have next : valueFrom value (digit :: digits) = valueFrom (10 * value + digit.val) digits := rfl
    have larger := le_valueFrom (10 * value + digit.val) digits
    have read : appendDigits limit value taken (digitBytes (digit :: digits)) =
        if 10 * value + digit.val < limit then
          appendDigits limit (10 * value + digit.val) (taken + 1) (digitBytes digits)
        else (value, taken, true) := by
      rw [digitBytes, List.map_cons, appendDigits, digitValue_byte]
      rfl
    have later := ih (10 * value + digit.val) (taken + 1)
    have length : taken + 1 + digits.length = taken + (digit :: digits).length := by
      rw [List.length_cons]
      omega
    rw [read, next]
    by_cases small : 10 * value + digit.val < limit
    · rw [if_pos small]
      -- later digits make the number larger still, so that all fit if the last one does
      by_cases fits : valueFrom (10 * value + digit.val) digits < limit
      · rw [if_pos (.inl fits)] at later ⊢
        rw [later, length]
      · have some : digits ≠ [] := by
          rintro rfl
          exact fits small
        rw [if_neg (by simp [fits, some])] at later
        rw [if_neg (by simp [fits]), ← length]
        exact later
    · have large : ¬valueFrom (10 * value + digit.val) digits < limit := by omega
      rw [if_neg small, if_neg (by simp [large])]
      simp

/-! ### What a literal is read as -/

/-- A number of which only so many digits were kept is scaled to its size. Nothing if it gets too
large for a double. -/
def scaled? (positive : Bool) (significand : Nat) (start : Int) : Option Exponent → Option Float
  | none => (scale significand.toUInt64.toFloat start).map (signed positive)
  | some exponent =>
    let upward := exponent.sign != some .minus
    let (size, _, tooLarge) := appendDigits 0x80000000 0 0 (digitBytes exponent.digits)
    if tooLarge then if significand ≠ 0 ∧ upward then none else some (signed positive 0)
    else
      (scale significand.toUInt64.toFloat (if upward then start + size else start - size)).map
        (signed positive)

/-- What a number is without point and exponent, if none of its digits was dropped. -/
def wholeNumber (positive : Bool) (significand : Nat) : Number :=
  if positive then .natural significand
  else if significand = 0 ∨ 0x8000000000000000 < significand then
    .float (-significand.toUInt64.toFloat)
  else .negative (-significand)

namespace NumberLiteral

/-- A literal that has a whole part only. -/
def isWhole (literal : NumberLiteral) : Bool :=
  literal.fraction.isEmpty && literal.exponent.isNone

/-- What a literal is read as once its whole part was. -/
def numberFrom? (literal : NumberLiteral) (positive : Bool) (significand dropped : Nat) :
    Option Number :=
  if literal.isWhole && dropped == 0 then some (wholeNumber positive significand)
  else
    let (significand, taken, _) :=
      appendDigits 0x10000000000000000 significand 0 (digitBytes literal.fraction)
    (scaled? positive significand (dropped - taken) literal.exponent).map .float

/-- What a literal is read as; nothing if it is too large for a double. -/
def number? (literal : NumberLiteral) : Option Number :=
  let (significand, taken, _) :=
    appendDigits 0x10000000000000000 0 0 (digitBytes literal.whole)
  literal.numberFrom? (!literal.negative) significand (literal.whole.length - taken)

/-- The bytes behind the whole part. -/
def tail (literal : NumberLiteral) : Bytes := literal.fractionBytes ++ literal.exponentBytes

end NumberLiteral

/-! ### Where numbers end -/

/-- What may stand behind a number. -/
def Ends (cut : Bool) : Bytes → Prop
  | [] => cut = false
  | byte :: _ => isDigit byte = false ∧ byte ≠ 46 ∧ byte ≠ 101 ∧ byte ≠ 69

/-- A document in which there is no value to read is malformed. -/
def orMalformed (value? : Option α) : Except JsonError α := value?.elim (.error .malformed) .ok

/-- A reader takes `text` and nothing of what stands behind it. -/
def Takes (read : Bool → Bytes → Except JsonError (α × Bytes)) (text : Bytes)
    (value? : Option α) : Prop :=
  ∀ cut rest, Ends cut rest → read cut (text ++ rest) = orMalformed (value?.map (·, rest))

theorem Ends.lookahead (ends : Ends cut rest) : lookahead cut rest = .ok () := by
  unfold Json.lookahead
  cases rest with
  | nil =>
    obtain rfl : cut = false := ends
    rfl
  | cons => simp

theorem lookahead_of_text {text : Bytes} (nonempty : text ≠ []) (rest : Bytes) :
    lookahead cut (text ++ rest) = .ok () := by
  unfold lookahead
  cases text with
  | nil => exact absurd rfl nonempty
  | cons => simp

theorem Ends.no_digit (ends : Ends cut rest) : rest.head?.any isDigit = false := by
  cases rest with
  | nil => rfl
  | cons byte rest => exact ends.1

theorem Ends.no_exponent (ends : Ends cut rest) : startsExponent rest = false := by
  cases rest with
  | nil => rfl
  | cons byte rest => simp [startsExponent, ends.2.2.1, ends.2.2.2]

theorem Ends.no_point (ends : Ends cut rest) : rest.head? ≠ some 46 := by
  cases rest with
  | nil => simp
  | cons byte rest => simpa using ends.2.1

theorem digitBytes_ne_nil {digits : List Digit} (nonempty : digits ≠ []) :
    digitBytes digits ≠ [] := by
  simpa [digitBytes] using nonempty

theorem assemble_eq (positive : Bool) (significand : Nat) (exponent : Int) :
    assemble positive significand exponent =
      orMalformed ((scale significand.toUInt64.toFloat exponent).map (signed positive)) := by
  unfold assemble
  cases scale significand.toUInt64.toFloat exponent <;> rfl

/-! ### Behind the point -/

/-- An exponent goes upward unless it has a minus. -/
def signOf : Bytes → Bool × Bytes
  | 43 :: rest => (true, rest)
  | 45 :: rest => (false, rest)
  | bytes => (true, bytes)

/-- The digits of an exponent behind its sign. -/
def exponentDigits (cut positive upward : Bool) (significand : Nat) (start : Int) (bytes : Bytes) :
    Except JsonError (Float × Bytes) :=
  let digits := bytes.takeWhile isDigit
  let rest := bytes.dropWhile isDigit
  if digits.isEmpty then .error (if rest.isEmpty then exhausted cut else .malformed)
  else
    let (exponent, _, tooLarge) := appendDigits 0x80000000 0 0 digits
    if tooLarge then
      if significand ≠ 0 ∧ upward then .error .malformed
      else do
        lookahead cut rest
        .ok (signed positive 0, rest)
    else do
      lookahead cut rest
      let exponent : Int := if upward then start + exponent else start - exponent
      .ok (← assemble positive significand exponent, rest)

theorem exponentPart_eq (positive : Bool) (significand : Nat) (start : Int) (bytes : Bytes) :
    exponentPart cut positive significand start bytes =
      (lookahead cut bytes).bind fun _ =>
        exponentDigits cut positive (signOf bytes).1 significand start (signOf bytes).2 := by
  unfold exponentPart
  split
  rename_i upward digits sign
  have same : signOf bytes = (upward, digits) := by
    split at sign
    · exact sign
    · exact sign
    · rename_i plus minus
      rw [signOf]
      · exact sign
      · exact plus
      · exact minus
  rw [same]
  rfl

theorem signOf_exponent (sign : Option Sign) {digits : List Digit} (nonempty : digits ≠ [])
    (rest : Bytes) :
    signOf (sign.toList.map Sign.byte ++ digitBytes digits ++ rest) =
      (sign != some .minus, digitBytes digits ++ rest) := by
  rcases sign with _ | _ | _
  · obtain ⟨digit, digits, rfl⟩ := List.exists_cons_of_ne_nil nonempty
    show signOf (digit.byte :: (digitBytes digits ++ rest)) = _
    unfold signOf
    split
    · rename_i plus
      exact absurd (List.cons.inj plus).1 (byte_ne_of_other (by decide) digit)
    · rename_i minus
      exact absurd (List.cons.inj minus).1 (byte_ne_of_other (by decide) digit)
    · rfl
  · rfl
  · rfl

theorem exponentDigits_takes (positive : Bool) (significand : Nat) (start : Int)
    (exponent : Exponent) :
    Takes (exponentDigits · positive (exponent.sign != some .minus) significand start)
      (digitBytes exponent.digits) (scaled? positive significand start (some exponent)) := by
  intro cut rest ends
  have some : (digitBytes exponent.digits).isEmpty = false := by
    simpa using digitBytes_ne_nil exponent.nonempty
  obtain ⟨taken, left⟩ := takeWhile_digitBytes exponent.digits ends.no_digit
  rcases read : appendDigits 0x80000000 0 0 (digitBytes exponent.digits) with ⟨size, _, tooLarge⟩
  cases tooLarge with
  | true =>
    simp only [exponentDigits, taken, left, some, read, ends.lookahead, Bool.false_eq_true, if_true,
      if_false, scaled?]
    split <;> rfl
  | false =>
    simp only [exponentDigits, taken, left, some, read, ends.lookahead, Bool.false_eq_true,
      if_false, scaled?, assemble_eq]
    show Except.bind (orMalformed (Option.map _ (scale _ ?exponent))) _ = _
    cases scale _ ?exponent <;> rfl

theorem exponentPart_takes (positive : Bool) (significand : Nat) (start : Int)
    (exponent : Exponent) :
    Takes (exponentPart · positive significand start) exponent.bytes.tail
      (scaled? positive significand start (some exponent)) := by
  intro cut rest ends
  have some : exponent.sign.toList.map Sign.byte ++ digitBytes exponent.digits ≠ [] := by
    simp [digitBytes_ne_nil exponent.nonempty]
  show exponentPart cut positive significand start
    (exponent.sign.toList.map Sign.byte ++ digitBytes exponent.digits ++ rest) = _
  rw [exponentPart_eq, lookahead_of_text some, signOf_exponent exponent.sign exponent.nonempty]
  exact exponentDigits_takes positive significand start exponent cut rest ends

theorem startsExponent_bytes (exponent : Exponent) (rest : Bytes) :
    startsExponent (exponent.bytes ++ rest) = true := by
  obtain ⟨capital, sign, digits, nonempty⟩ := exponent
  cases capital <;> rfl

theorem fractionEnd_takes (positive : Bool) (significand : Nat) (start : Int)
    (exponent : Option Exponent) :
    Takes (fractionEnd · positive significand start) (exponent.elim [] Exponent.bytes)
      (scaled? positive significand start exponent) := by
  intro cut rest ends
  cases exponent with
  | none =>
    show fractionEnd cut positive significand start rest = _
    rw [fractionEnd, ends.lookahead, ends.no_exponent, assemble_eq, scaled?]
    cases scale significand.toUInt64.toFloat start <;> rfl
  | some exponent =>
    show fractionEnd cut positive significand start (exponent.bytes ++ rest) = _
    rw [fractionEnd, lookahead_of_text (by simp [Exponent.bytes]), startsExponent_bytes]
    exact exponentPart_takes positive significand start exponent cut rest ends

theorem no_digit_of_exponent (exponent : Option Exponent) (ends : Ends cut rest) :
    (exponent.elim [] Exponent.bytes ++ rest).head?.any isDigit = false := by
  cases exponent with
  | none => exact ends.no_digit
  | some exponent =>
    obtain ⟨capital, sign, digits, nonempty⟩ := exponent
    cases capital <;> rfl

theorem fractionPart_takes (positive : Bool) (significand : Nat) (start : Int)
    {digits : List Digit} (nonempty : digits ≠ []) (exponent : Option Exponent) {value taken : Nat}
    {full : Bool}
    (read : appendDigits 0x10000000000000000 significand 0 (digitBytes digits) =
      (value, taken, full)) :
    Takes (fractionPart · positive significand start)
      (digitBytes digits ++ exponent.elim [] Exponent.bytes)
      (scaled? positive value (start - taken) exponent) := by
  intro cut rest ends
  have some : (digitBytes digits).isEmpty = false := by simpa using digitBytes_ne_nil nonempty
  obtain ⟨front, left⟩ :=
    takeWhile_digitBytes digits (no_digit_of_exponent exponent ends)
  simp only [List.append_assoc, fractionPart, front, left, some, read]
  exact fractionEnd_takes positive value (start - taken) exponent cut rest ends

/-! ### Whole numbers -/

theorem map_float {read : Except JsonError (Float × Bytes)} {value? : Option Float}
    (taken : read = orMalformed (value?.map (·, rest))) :
    (read.map fun read => (Number.float read.1, read.2)) =
      orMalformed ((value?.map .float).map (·, rest)) := by
  rw [taken]
  cases value? <;> rfl

theorem numberEnd_of_point (ready : lookahead cut (46 :: rest) = .ok ()) (positive : Bool)
    (significand dropped : Nat) :
    numberEnd cut positive significand dropped (46 :: rest) =
      (fractionPart cut positive significand dropped rest).map fun read =>
        (.float read.1, read.2) := by
  rw [numberEnd, ready]
  show Except.bind (fractionPart ..) _ = _
  cases fractionPart cut positive significand dropped rest <;> rfl

theorem numberEnd_of_no_point {bytes : Bytes} (no_point : bytes.head? ≠ some 46)
    (ready : lookahead cut bytes = .ok ()) (positive : Bool) (significand dropped : Nat) :
    numberEnd cut positive significand dropped bytes =
      if startsExponent bytes || dropped ≠ 0 then
        (fractionEnd cut positive significand dropped bytes).map fun read => (.float read.1, read.2)
      else .ok (wholeNumber positive significand, bytes) := by
  rw [numberEnd, ready]
  · show (if _ then Except.bind (fractionEnd ..) _ else _) = _
    split
    · cases fractionEnd cut positive significand dropped bytes <;> rfl
    · unfold wholeNumber
      split
      · rfl
      · split <;> rfl
  · rintro rest rfl
    exact no_point rfl

namespace NumberLiteral

theorem no_digit_tail (literal : NumberLiteral) (ends : Ends cut rest) :
    (literal.tail ++ rest).head?.any isDigit = false := by
  unfold tail fractionBytes
  split
  · exact no_digit_of_exponent literal.exponent ends
  · rfl

/-- Without a point, a number is whole unless it has an exponent or digits were dropped. -/
theorem numberEnd_takes_of_no_fraction (literal : NumberLiteral)
    (no_fraction : literal.fraction = []) (positive : Bool) (significand dropped : Nat) :
    Takes (numberEnd · positive significand dropped) literal.exponentBytes
      (literal.numberFrom? positive significand dropped) := by
  intro cut rest ends
  have float := fractionEnd_takes positive significand dropped literal.exponent cut rest ends
  have all : appendDigits 0x10000000000000000 significand 0 (digitBytes literal.fraction) =
      (significand, 0, false) := by
    rw [no_fraction]
    rfl
  show numberEnd cut positive significand dropped (literal.exponentBytes ++ rest) = _
  cases exponent : literal.exponent with
  | none =>
    have bytes : literal.exponentBytes = [] := by simp [exponentBytes, exponent]
    have whole : literal.isWhole = true := by simp [isWhole, no_fraction, exponent]
    rw [exponent] at float
    rw [bytes, List.nil_append, numberEnd_of_no_point ends.no_point ends.lookahead,
      ends.no_exponent, numberFrom?, whole, all, exponent]
    by_cases none : dropped = 0
    · simp [none, orMalformed]
    · rw [if_pos (by simpa using none), if_neg (by simpa using none)]
      simpa using map_float float
  | some exponent' =>
    have bytes : literal.exponentBytes = exponent'.bytes := by simp [exponentBytes, exponent]
    have inexact : literal.isWhole = false := by simp [isWhole, exponent]
    have no_point : (exponent'.bytes ++ rest).head? ≠ some 46 := by
      by_cases capital : exponent'.capital <;> simp [Exponent.bytes, capital]
    rw [exponent] at float
    rw [bytes, numberEnd_of_no_point no_point (lookahead_of_text (by simp [Exponent.bytes]) rest),
      startsExponent_bytes, numberFrom?, inexact, all, exponent]
    simpa using map_float float

theorem numberEnd_takes (literal : NumberLiteral) (positive : Bool) (significand dropped : Nat) :
    Takes (numberEnd · positive significand dropped) literal.tail
      (literal.numberFrom? positive significand dropped) := by
  by_cases fraction : literal.fraction = []
  · have tail : literal.tail = literal.exponentBytes := by simp [tail, fractionBytes, fraction]
    rw [tail]
    exact literal.numberEnd_takes_of_no_fraction fraction positive significand dropped
  · intro cut rest ends
    have tail : literal.tail = 46 :: (digitBytes literal.fraction ++ literal.exponentBytes) := by
      simp [tail, fractionBytes, fraction]
    rcases read : appendDigits 0x10000000000000000 significand 0 (digitBytes literal.fraction) with
      ⟨value, taken, _⟩
    have float := fractionPart_takes positive significand dropped fraction literal.exponent read
      cut rest ends
    have ready : lookahead cut
        (46 :: (digitBytes literal.fraction ++ literal.exponentBytes ++ rest)) = .ok () :=
      lookahead_of_text (List.cons_ne_nil 46 []) _
    have inexact : literal.isWhole = false := by simp [isWhole, fraction]
    show numberEnd cut positive significand dropped (literal.tail ++ rest) = _
    rw [tail, List.cons_append, numberEnd_of_point ready, numberFrom?, inexact, read]
    exact map_float float

/-! ### Numbers -/

theorem unsignedNumber_zero (stop : rest.head?.any isDigit = false) (positive : Bool) :
    unsignedNumber cut positive (48 :: rest) = numberEnd cut positive 0 0 rest := by
  have stop : ¬(rest.head?.map isDigit).getD false = true := by
    cases rest <;> simp_all
  show (if _ then _ else _) = _
  rw [if_neg stop]

theorem unsignedNumber_digits {digit : Digit} (digits : List Digit) (not_zero : digit ≠ 0)
    (stop : rest.head?.any isDigit = false) (positive : Bool) {significand taken : Nat}
    {full : Bool} (read : appendDigits 0x10000000000000000 0 0 (digitBytes (digit :: digits)) =
      (significand, taken, full)) :
    unsignedNumber cut positive (digitBytes (digit :: digits) ++ rest) =
      numberEnd cut positive significand ((digit :: digits).length - taken) rest := by
  have other : ¬(digit.byte == 48) = true := by simpa [byte_eq_zero_iff] using not_zero
  have front : (digit.byte :: (digitBytes digits ++ rest)).takeWhile isDigit =
      digitBytes (digit :: digits) := (takeWhile_digitBytes (digit :: digits) stop).1
  have left := (takeWhile_digitBytes digits stop).2
  have length : (digitBytes (digit :: digits)).length = (digit :: digits).length :=
    List.length_map _
  show unsignedNumber cut positive (digit.byte :: (digitBytes digits ++ rest)) = _
  rw [unsignedNumber, if_neg other, if_pos (isDigit_byte digit), left]
  simp only [front, read, length]

theorem unsignedNumber_takes (literal : NumberLiteral) (positive : Bool) {significand taken : Nat}
    {full : Bool}
    (read : appendDigits 0x10000000000000000 0 0 (digitBytes literal.whole) =
      (significand, taken, full)) :
    Takes (unsignedNumber · positive) (digitBytes literal.whole ++ literal.tail)
      (literal.numberFrom? positive significand (literal.whole.length - taken)) := by
  intro cut rest ends
  have stop := literal.no_digit_tail ends
  have behind := literal.numberEnd_takes positive significand (literal.whole.length - taken)
    cut rest ends
  obtain ⟨digit, digits, whole⟩ := List.exists_cons_of_ne_nil literal.nonempty
  show unsignedNumber cut positive (digitBytes literal.whole ++ literal.tail ++ rest) = _
  rw [List.append_assoc]
  by_cases zero : digit = 0
  · have alone : literal.whole = [0] := literal.unpadded (by simp [whole, zero])
    have none : appendDigits 0x10000000000000000 0 0 (digitBytes [0]) = (0, 1, false) := rfl
    rw [alone, none] at read
    obtain ⟨rfl, rfl, -⟩ : 0 = significand ∧ 1 = taken ∧ false = full := by simpa using read
    rw [alone] at behind ⊢
    exact (unsignedNumber_zero stop positive).trans behind
  · rw [whole] at read behind ⊢
    exact (unsignedNumber_digits digits zero stop positive read).trans behind

/-- A number is read to its end, and what follows it has no influence. -/
theorem number_of_literal (literal : NumberLiteral) :
    Takes number literal.bytes literal.number? := by
  intro cut rest ends
  rcases read : appendDigits 0x10000000000000000 0 0 (digitBytes literal.whole) with
    ⟨significand, taken, _⟩
  have unsigned := literal.unsignedNumber_takes (!literal.negative) read cut rest ends
  rw [number?, read]
  rw [← unsigned]
  show number cut (literal.bytes ++ rest) = _
  unfold bytes
  cases literal.negative with
  | true => rfl
  | false =>
    obtain ⟨digit, digits, whole⟩ := List.exists_cons_of_ne_nil literal.nonempty
    show number cut (digitBytes literal.whole ++ literal.tail ++ rest) = _
    rw [whole]
    show number cut (digit.byte :: (digitBytes digits ++ literal.tail ++ rest)) = _
    rw [number]
    · rfl
    · rintro minus same
      exact byte_ne_of_other (by decide) digit (List.cons.inj same).1

/-! ### Integers -/

theorem valueFrom_eq_zero_iff (literal : NumberLiteral) :
    valueFrom 0 literal.whole = 0 ↔ literal.whole = [0] := by
  constructor
  · intro zero
    obtain ⟨digit, digits, whole⟩ := List.exists_cons_of_ne_nil literal.nonempty
    have first : digit.val ≤ valueFrom 0 literal.whole := by
      rw [whole]
      exact Nat.le_trans (by omega) (le_valueFrom (10 * 0 + digit.val) digits)
    obtain rfl : digit = 0 := Fin.ext (by simpa [zero] using first)
    exact literal.unpadded (by simp [whole])
  · intro whole
    rw [whole]
    rfl

theorem number?_of_small (literal : NumberLiteral) (whole : literal.isWhole = true)
    (small : valueFrom 0 literal.whole < 0x10000000000000000) :
    literal.number? = some (wholeNumber (!literal.negative) (valueFrom 0 literal.whole)) := by
  have read := appendDigits_digitBytes 0x10000000000000000 0 0 literal.whole
  rw [if_pos (.inl small)] at read
  simp [number?, numberFrom?, read, whole]

/-- A literal that is not whole or has too many digits is read as a double, if it is read. -/
theorem number?_of_other (literal : NumberLiteral)
    (other : literal.isWhole = true → ¬valueFrom 0 literal.whole < 0x10000000000000000) :
    ∃ value? : Option Float, literal.number? = value?.map .float := by
  have read := appendDigits_digitBytes 0x10000000000000000 0 0 literal.whole
  refine ⟨_, if_neg ?_⟩
  rw [Bool.and_eq_true, beq_iff_eq]
  rintro ⟨whole, none_dropped⟩
  rw [if_neg (by simp [other whole, literal.nonempty]), Nat.zero_add] at read
  exact Nat.sub_ne_zero_of_lt read none_dropped

theorem integer?_of_whole (literal : NumberLiteral) (whole : literal.isWhole = true) :
    literal.integer? =
      if literal.negative then
        if literal.whole = [0] then none else some (-(valueFrom 0 literal.whole : Int))
      else some (valueFrom 0 literal.whole : Int) := if_pos whole

theorem isWhole_of_integer? (literal : NumberLiteral) {value : Int}
    (integer : literal.integer? = some value) :
    literal.isWhole = true ∧ value.natAbs = valueFrom 0 literal.whole := by
  by_cases whole : literal.isWhole = true
  · refine ⟨whole, ?_⟩
    rw [literal.integer?_of_whole whole] at integer
    split at integer
    · split at integer
      · cases integer
      · obtain rfl := Option.some.inj integer
        rw [Int.natAbs_neg, Int.natAbs_natCast]
    · obtain rfl := Option.some.inj integer
      exact Int.natAbs_natCast _
  · exact absurd (integer ▸ (if_neg whole).symm : none = some value) (by simp)

/-- A literal that is no integer, or a large one, is not read exactly. -/
theorem exact_cases (literal : NumberLiteral) :
    (literal.isWhole = true ∧ valueFrom 0 literal.whole < 0x10000000000000000) ∨
      ((∃ value? : Option Float, literal.number? = value?.map .float) ∧
        ∀ value : Int, literal.integer? = some value → 0x10000000000000000 ≤ value.natAbs) := by
  by_cases exact_digits :
      literal.isWhole = true ∧ valueFrom 0 literal.whole < 0x10000000000000000
  · exact .inl exact_digits
  · refine .inr ⟨literal.number?_of_other (by simpa using exact_digits), ?_⟩
    intro value integer
    obtain ⟨whole, size⟩ := literal.isWhole_of_integer? integer
    rw [size]
    exact Nat.le_of_not_lt fun small => exact_digits ⟨whole, small⟩

theorem number?_eq_natural_iff (literal : NumberLiteral) (value : Nat) :
    literal.number? = some (.natural value) ↔
      literal.integer? = some (value : Int) ∧ value < 0x10000000000000000 := by
  rcases literal.exact_cases with ⟨whole, small⟩ | ⟨⟨value?, float⟩, large⟩
  · rw [literal.number?_of_small whole small, literal.integer?_of_whole whole]
    have zero := literal.valueFrom_eq_zero_iff
    cases literal.negative with
    | false =>
      simp only [wholeNumber, Bool.not_false, if_true, Bool.false_eq_true, if_false,
        Option.some.injEq, Number.natural.injEq, Int.ofNat_inj]
      omega
    | true =>
      -- minus zero is a double and no integer
      simp only [wholeNumber, Bool.not_true, if_true, Bool.false_eq_true, if_false, ← zero]
      split <;> split <;> simp <;> omega
  · rw [float]
    constructor
    · cases value? <;> simp
    · rintro ⟨integer, small⟩
      have := large value integer
      omega

theorem number?_eq_negative_iff (literal : NumberLiteral) (value : Int) :
    literal.number? = some (.negative value) ↔
      literal.integer? = some value ∧ value < 0 ∧ -0x8000000000000000 ≤ value := by
  rcases literal.exact_cases with ⟨whole, small⟩ | ⟨⟨value?, float⟩, large⟩
  · rw [literal.number?_of_small whole small, literal.integer?_of_whole whole]
    have zero := literal.valueFrom_eq_zero_iff
    cases literal.negative with
    | false =>
      simp only [wholeNumber, Bool.not_false, if_true, Bool.false_eq_true, if_false,
        Option.some.injEq, reduceCtorEq, false_iff]
      omega
    | true =>
      simp only [wholeNumber, Bool.not_true, if_true, Bool.false_eq_true, if_false, ← zero]
      split <;> split <;> simp <;> omega
  · rw [float]
    constructor
    · cases value? <;> simp
    · rintro ⟨integer, small⟩
      have := large value integer
      omega

end NumberLiteral

end LinkArchive.Json
