import LinkArchive.Bytes
import LinkArchive.Json.Error

/-! Literals, strings and numbers at the start of some bytes. `cut` tells that what follows them
cannot be read, as opposed to there being nothing more. -/

namespace LinkArchive.Json

def exhausted (cut : Bool) : JsonError := if cut then .io else .eof

def isSpace (byte : UInt8) : Bool := byte == 32 || byte == 9 || byte == 10 || byte == 13

def skipSpace (bytes : Bytes) : Bytes := bytes.dropWhile isSpace

def literal (cut : Bool) : Bytes → Bytes → Except JsonError Bytes
  | [], bytes => .ok bytes
  | _ :: _, [] => .error (exhausted cut)
  | expected :: more, byte :: rest =>
    if byte == expected then literal cut more rest else .error .malformed

/-! ### Strings -/

def hexValue? (byte : UInt8) : Option Nat :=
  if 48 ≤ byte && byte ≤ 57 then some (byte.toNat - 48)
  else if 97 ≤ byte && byte ≤ 102 then some (byte.toNat - 87)
  else if 65 ≤ byte && byte ≤ 70 then some (byte.toNat - 55)
  else none

def hex4 (cut : Bool) : Bytes → Except JsonError (Nat × Bytes)
  | a :: b :: c :: d :: rest =>
    match hexValue? a, hexValue? b, hexValue? c, hexValue? d with
    | some a, some b, some c, some d => .ok (4096 * a + 256 * b + 16 * c + d, rest)
    | _, _, _, _ => .error .malformed
  | _ => .error (exhausted cut)

def encodeChar (code : Nat) : Bytes := Bytes.ofText (Char.ofNat code).toString

def lowSurrogate (cut : Bool) (high : Nat) : Bytes → Except JsonError (Bytes × Bytes)
  | [] => .error (exhausted cut)
  | [byte] => .error (if byte == 92 then exhausted cut else .malformed)
  | 92 :: 117 :: rest => do
    let (low, rest) ← hex4 cut rest
    if low < 0xdc00 || 0xdfff < low then .error .malformed
    else .ok (encodeChar ((high - 0xd800) * 1024 + (low - 0xdc00) + 0x10000), rest)
  | _ => .error .malformed

def unescape (cut : Bool) : Bytes → Except JsonError (Bytes × Bytes)
  | [] => .error (exhausted cut)
  | 34 :: rest => .ok ([34], rest)
  | 92 :: rest => .ok ([92], rest)
  | 47 :: rest => .ok ([47], rest)
  | 98 :: rest => .ok ([8], rest)
  | 102 :: rest => .ok ([12], rest)
  | 110 :: rest => .ok ([10], rest)
  | 114 :: rest => .ok ([13], rest)
  | 116 :: rest => .ok ([9], rest)
  | 117 :: rest => do
    let (code, rest) ← hex4 cut rest
    if 0xdc00 ≤ code && code ≤ 0xdfff then .error .malformed
    else if 0xd800 ≤ code && code ≤ 0xdbff then lowSurrogate cut code rest
    else .ok (encodeChar code, rest)
  | _ => .error .malformed

/-- Every step takes a byte, so `fuel` bytes are enough. -/
def stringBytes (cut : Bool) : Nat → Bytes → Except JsonError (Bytes × Bytes)
  | 0, _ => .error (exhausted cut)
  | _, [] => .error (exhausted cut)
  | _, 34 :: rest => .ok ([], rest)
  | fuel + 1, 92 :: rest => do
    let (bytes, rest) ← unescape cut rest
    let (more, rest) ← stringBytes cut fuel rest
    .ok (bytes ++ more, rest)
  | fuel + 1, byte :: rest =>
    if byte < 32 then .error .malformed
    else do
      let (more, rest) ← stringBytes cut fuel rest
      .ok (byte :: more, rest)

def string (cut : Bool) (bytes : Bytes) : Except JsonError (String × Bytes) := do
  let (raw, rest) ← stringBytes cut (bytes.length + 1) bytes
  match raw.toText? with
  | some text => .ok (text, rest)
  | none => .error .malformed

/-! ### Numbers -/

/-- Without fraction and exponent a number is exact, unless it is too large or minus zero. -/
inductive Number where
  | natural (value : Nat)
  | negative (value : Int)
  | float (value : Float)

def isDigit (byte : UInt8) : Bool := 48 ≤ byte && byte ≤ 57

def digitValue (byte : UInt8) : Nat := byte.toNat - 48

/-- The number, how many digits it took, and whether some were left as it would pass the limit. -/
def appendDigits (limit value taken : Nat) : Bytes → Nat × Nat × Bool
  | [] => (value, taken, false)
  | digit :: rest =>
    let next := 10 * value + digitValue digit
    if next < limit then appendDigits limit next (taken + 1) rest else (value, taken, true)

def powerOfTen (exponent : Nat) : Float := Float.ofScientific 1 false exponent

/-- Nothing if the double gets too large. -/
def scale (value : Float) (exponent : Int) : Option Float :=
  if 0 ≤ exponent then
    if exponent ≤ 308 then
      let scaled := value * powerOfTen exponent.toNat
      if scaled.isInf then none else some scaled
    else if value == 0 then some value else none
  else if -308 ≤ exponent then some (value / powerOfTen (-exponent).toNat)
  else if value == 0 then some value
  else scale (value / powerOfTen 308) (exponent + 308)
termination_by (-exponent).toNat

def signed (positive : Bool) (value : Float) : Float := if positive then value else -value

def assemble (positive : Bool) (significand : Nat) (exponent : Int) : Except JsonError Float :=
  match scale significand.toUInt64.toFloat exponent with
  | some value => .ok (signed positive value)
  | none => .error .malformed

def lookahead (cut : Bool) (rest : Bytes) : Except JsonError Unit :=
  if cut && rest.isEmpty then .error .io else .ok ()

def exponentPart (cut positive : Bool) (significand : Nat) (start : Int) (bytes : Bytes) :
    Except JsonError (Float × Bytes) := do
  lookahead cut bytes
  let (upward, bytes) := match bytes with
    | 43 :: rest => (true, rest)
    | 45 :: rest => (false, rest)
    | _ => (true, bytes)
  let digits := bytes.takeWhile isDigit
  let rest := bytes.dropWhile isDigit
  if digits.isEmpty then .error (if rest.isEmpty then exhausted cut else .malformed)
  else
    let (exponent, _, tooLarge) := appendDigits 0x80000000 0 0 digits
    if tooLarge then
      if significand ≠ 0 ∧ upward then .error .malformed
      else do
        lookahead cut rest
        .ok (signed positive 0, rest)
    else do
      lookahead cut rest
      let exponent : Int := if upward then start + exponent else start - exponent
      .ok (← assemble positive significand exponent, rest)

def startsExponent : Bytes → Bool
  | byte :: _ => byte == 101 || byte == 69
  | [] => false

def fractionEnd (cut positive : Bool) (significand : Nat) (exponent : Int) (rest : Bytes) :
    Except JsonError (Float × Bytes) := do
  lookahead cut rest
  if startsExponent rest then exponentPart cut positive significand exponent rest.tail
  else .ok (← assemble positive significand exponent, rest)

def fractionPart (cut positive : Bool) (significand : Nat) (start : Int) (bytes : Bytes) :
    Except JsonError (Float × Bytes) :=
  let digits := bytes.takeWhile isDigit
  let rest := bytes.dropWhile isDigit
  if digits.isEmpty then .error (if rest.isEmpty then exhausted cut else .malformed)
  else
    let (significand, taken, _) := appendDigits 0x10000000000000000 significand 0 digits
    fractionEnd cut positive significand (start - taken) rest

def numberEnd (cut positive : Bool) (significand dropped : Nat) (rest : Bytes) :
    Except JsonError (Number × Bytes) := do
  lookahead cut rest
  match rest with
  | 46 :: rest =>
    let (value, rest) ← fractionPart cut positive significand dropped rest
    .ok (.float value, rest)
  | _ =>
    if startsExponent rest || dropped ≠ 0 then
      let (value, rest) ← fractionEnd cut positive significand dropped rest
      .ok (.float value, rest)
    else if positive then .ok (.natural significand, rest)
    else if significand = 0 ∨ 0x8000000000000000 < significand then
      .ok (.float (-significand.toUInt64.toFloat), rest)
    else .ok (.negative (-significand), rest)

/-- A leading zero stands alone. -/
def unsignedNumber (cut positive : Bool) : Bytes → Except JsonError (Number × Bytes)
  | [] => .error (exhausted cut)
  | byte :: rest =>
    if byte == 48 then
      if (rest.head?.map isDigit).getD false then .error .malformed
      else numberEnd cut positive 0 0 rest
    else if isDigit byte then
      let digits := (byte :: rest).takeWhile isDigit
      let (significand, taken, _) := appendDigits 0x10000000000000000 0 0 digits
      numberEnd cut positive significand (digits.length - taken) (rest.dropWhile isDigit)
    else .error .malformed

def number (cut : Bool) : Bytes → Except JsonError (Number × Bytes)
  | 45 :: rest => unsignedNumber cut false rest
  | bytes => unsignedNumber cut true bytes

def Number.found : Number → Found
  | natural value => .integer value
  | negative value => .integer value
  | float value => .float value.toBits

/-! ### Whatever else -/

def startsNumber (byte : UInt8) : Bool := byte == 45 || isDigit byte

/-- Of a sequence or a map only the start is read. -/
def found (cut : Bool) : Bytes → Except JsonError Found
  | [] => .error (exhausted cut)
  | 110 :: rest => do
    let _ ← literal cut [117, 108, 108] rest
    .ok .null
  | 116 :: rest => do
    let _ ← literal cut [114, 117, 101] rest
    .ok (.boolean true)
  | 102 :: rest => do
    let _ ← literal cut [97, 108, 115, 101] rest
    .ok (.boolean false)
  | 34 :: rest => do
    let (text, _) ← string cut rest
    .ok (.string text)
  | 91 :: _ => .ok .sequence
  | 123 :: _ => .ok .map
  | byte :: rest =>
    if startsNumber byte then do
      let (value, _) ← number cut (byte :: rest)
      .ok value.found
    else .error .malformed

def mismatched (cut : Bool) (expected : Expected) (bytes : Bytes) : JsonError :=
  match found cut bytes with
  | .ok found => .data (.invalidType found expected)
  | .error error => error

end LinkArchive.Json
