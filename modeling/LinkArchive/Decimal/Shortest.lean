/-! The decimal with the fewest digits that reads back as a given double, and of these the one
nearest to it. For every number of digits the two decimals next to the double are tried. -/

namespace LinkArchive.Decimal

structure Ratio where
  numerator : Nat
  denominator : Nat

structure Scaled where
  digits : Nat
  exponent : Int
  deriving DecidableEq, Repr

/-- The double, the two ends of the interval of what reads back as it, and whether these belong to
it, in one unit. -/
structure Interval where
  value : Nat
  lower : Nat
  upper : Nat
  closed : Bool
  unitExponent : Int

def Interval.ofBits (bits : UInt64) : Interval :=
  let fraction := bits.toNat % 0x10000000000000
  let biased := bits.toNat / 0x10000000000000 % 0x800
  let mantissa := if biased = 0 then fraction else fraction + 0x10000000000000
  let exponent : Int := (if biased = 0 then 1 else biased : Nat) - 1075
  let narrow := fraction = 0 && biased > 1
  { value := 4 * mantissa
    lower := 4 * mantissa - if narrow then 1 else 2
    upper := 4 * mantissa + 2
    closed := mantissa % 2 == 0
    unitExponent := exponent - 2 }

def Interval.ratio (i : Interval) (units : Nat) : Ratio :=
  if i.unitExponent < 0 then ⟨units, Nat.pow 2 (-i.unitExponent).toNat⟩
  else ⟨units * Nat.pow 2 i.unitExponent.toNat, 1⟩

def Scaled.compare (d : Scaled) (r : Ratio) : Ordering :=
  if d.exponent < 0 then
    Ord.compare (d.digits * r.denominator) (r.numerator * Nat.pow 10 (-d.exponent).toNat)
  else Ord.compare (d.digits * Nat.pow 10 d.exponent.toNat * r.denominator) r.numerator

def Interval.contains (i : Interval) (d : Scaled) : Bool :=
  let low := d.compare (i.ratio i.lower)
  let high := d.compare (i.ratio i.upper)
  (low == .gt || (i.closed && low == .eq)) && (high == .lt || (i.closed && high == .eq))

def digitCount (n : Nat) : Nat := if n = 0 then 0 else (Nat.toDigits 10 n).length

/-- The greatest exponent of ten whose power is at most the fraction; `fuel` bounds its size. -/
def magnitude (r : Ratio) : Nat → Int
  | 0 => 0
  | fuel + 1 =>
    if r.denominator ≤ r.numerator then digitCount (r.numerator / r.denominator) - 1
    else magnitude ⟨r.numerator * 10, r.denominator⟩ fuel - 1

def floorAt (r : Ratio) (exponent : Int) : Scaled :=
  if exponent < 0 then ⟨r.numerator * Nat.pow 10 (-exponent).toNat / r.denominator, exponent⟩
  else ⟨r.numerator / (r.denominator * Nat.pow 10 exponent.toNat), exponent⟩

/-- The even one on a tie. -/
def nearer (r : Ratio) (low high : Scaled) : Scaled :=
  let middle : Scaled := ⟨10 * low.digits + 5, low.exponent - 1⟩
  match middle.compare r with
  | .gt => low
  | .lt => high
  | .eq => if low.digits % 2 = 0 then low else high

def search (i : Interval) (count : Nat) : Nat → Scaled
  | 0 => ⟨0, 0⟩
  | fuel + 1 =>
    let value := i.ratio i.value
    let low := floorAt value (magnitude value 400 - count + 1)
    let high : Scaled := { low with digits := low.digits + 1 }
    match i.contains low, i.contains high with
    | true, true => nearer value low high
    | true, false => low
    | false, true => high
    | false, false => search i (count + 1) fuel

def Scaled.strip (d : Scaled) : Nat → Scaled
  | 0 => d
  | fuel + 1 =>
    if d.digits ≠ 0 ∧ d.digits % 10 = 0 then strip ⟨d.digits / 10, d.exponent + 1⟩ fuel else d

/-- Seventeen digits always read back. -/
def shortest (bits : UInt64) : Scaled := (search (Interval.ofBits bits) 1 17).strip 20

end LinkArchive.Decimal
