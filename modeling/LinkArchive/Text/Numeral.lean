import LinkArchive.Bytes

/-! Numerals: hexadecimal ones for bytes, and decimal ones for numbers below 2^64. -/

namespace LinkArchive.Text

inductive HexError where
  | oddLength
  | badDigit (byte : UInt8) (position : Nat)
  deriving DecidableEq, Repr

def hexDigit (value : UInt8) : Char :=
  if value < 10 then Char.ofNat (48 + value.toNat) else Char.ofNat (87 + value.toNat)

def hexValue? (byte : UInt8) : Option UInt8 :=
  if 48 ≤ byte && byte ≤ 57 then some (byte - 48)
  else if 97 ≤ byte && byte ≤ 102 then some (byte - 87)
  else if 65 ≤ byte && byte ≤ 70 then some (byte - 55)
  else none

def toHex (bytes : Bytes) : String :=
  String.ofList (bytes.flatMap fun byte => [hexDigit (byte / 16), hexDigit (byte % 16)])

/-- `position` counts the bytes read so far. -/
def ofHexDigits (position : Nat) : Bytes → Except HexError Bytes
  | [] => .ok []
  | [_] => .error .oddLength
  | high :: low :: rest =>
    match hexValue? high, hexValue? low with
    | none, _ => .error (.badDigit high position)
    | _, none => .error (.badDigit low (position + 1))
    | some h, some l => (ofHexDigits (position + 2) rest).map ((16 * h + l) :: ·)

def ofHex (text : String) : Except HexError Bytes :=
  let digits := Bytes.ofText text
  if digits.length % 2 == 1 then .error .oddLength else ofHexDigits 0 digits

/-! ### Decimal numerals -/

def isDigit (c : Char) : Bool := '0' ≤ c && c ≤ '9'

def digitsValue (digits : List Char) : Nat :=
  digits.foldl (fun value digit => 10 * value + (digit.toNat - 48)) 0

def dropPlus : List Char → List Char
  | '+' :: rest => rest
  | digits => digits

def word64? (numeral : List Char) : Option Nat :=
  let digits := dropPlus numeral
  if !digits.isEmpty && digits.all isDigit && digitsValue digits < 0x10000000000000000 then
    some (digitsValue digits)
  else none

end LinkArchive.Text
