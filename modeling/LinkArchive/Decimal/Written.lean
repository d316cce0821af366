import LinkArchive.Decimal.Shortest

/-! A double is written with a point where its magnitude is moderate, and else with an exponent. -/

namespace LinkArchive.Decimal

structure Style where
  leastPlain : Int
  greatestPlain : Int
  exponentDigits : Nat

def padded (count n : Nat) : String :=
  let digits := Nat.toDigits 10 n
  String.ofList (List.replicate (count - digits.length) '0' ++ digits)

def Scaled.plain (d : Scaled) : String :=
  let digits := Nat.toDigits 10 d.digits
  if 0 ≤ d.exponent then
    String.ofList (digits ++ List.replicate d.exponent.toNat '0') ++ ".0"
  else
    let places := (-d.exponent).toNat
    let digits := List.replicate (places + 1 - digits.length) '0' ++ digits
    String.ofList (digits.take (digits.length - places)) ++ "." ++
      String.ofList (digits.drop (digits.length - places))

def Scaled.scientific (style : Style) (d : Scaled) : String :=
  let digits := Nat.toDigits 10 d.digits
  let magnitude := d.exponent + (digits.length - 1 : Nat)
  let mantissa := match digits with
    | first :: second :: rest => String.ofList (first :: '.' :: second :: rest)
    | _ => String.ofList digits
  mantissa ++ (if magnitude < 0 then "e-" else "e+") ++
    padded style.exponentDigits magnitude.natAbs

def Scaled.render (style : Style) (d : Scaled) : String :=
  let magnitude := d.exponent + ((digitCount d.digits : Int) - 1)
  if style.leastPlain ≤ magnitude && magnitude ≤ style.greatestPlain then d.plain
  else d.scientific style

def render (style : Style) (bits : UInt64) : String :=
  let sign := if bits.toNat < 0x8000000000000000 then "" else "-"
  let size := UInt64.ofNat (bits.toNat % 0x8000000000000000)
  if size == 0 then sign ++ "0.0" else sign ++ (shortest size).render style

end LinkArchive.Decimal
