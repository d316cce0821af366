import LinkArchive.Json.Scalar
import LinkArchive.Release.Metadata

/-! A metadata document is a JSON object with any of the known fields, each at most once, and no
other. The values may also be given as an array, in the order of the fields. -/

namespace LinkArchive.ReleaseMetadata

open Json

def readText (cut : Bool) : Bytes → Except JsonError (String × Bytes)
  | [] => .error (exhausted cut)
  | 34 :: rest => Json.string cut rest
  | bytes => .error (mismatched cut .string bytes)

def readNumber (cut : Bool) (expected : Expected) (value? : Number → Except JsonError α) :
    Bytes → Except JsonError (α × Bytes)
  | [] => .error (exhausted cut)
  | byte :: rest =>
    if startsNumber byte then do
      let (number, rest) ← Json.number cut (byte :: rest)
      .ok (← value? number, rest)
    else .error (mismatched cut expected (byte :: rest))

def integerOf : Number → Except JsonError Int64
  | .float value => .error (.data (.invalidType (.float value.toBits) .integer))
  | .natural value =>
    if value < 0x8000000000000000 then .ok (Int64.ofInt value)
    else .error (.data (.invalidValue (.integer value) .integer))
  | .negative value => .ok (Int64.ofInt value)

def codeOf : Number → Except JsonError UInt16
  | .float value => .error (.data (.invalidType (.float value.toBits) .code))
  | .natural value =>
    if value < 0x10000 then .ok (UInt16.ofNat value)
    else .error (.data (.invalidValue (.integer value) .code))
  | .negative value => .error (.data (.invalidValue (.integer value) .code))

def floatOf : Number → Except JsonError Float
  | .float value => .ok value
  | .natural value => .ok value.toUInt64.toFloat
  | .negative value => .ok (-value.natAbs.toUInt64.toFloat)

def readFlag (cut : Bool) : Bytes → Except JsonError (Bool × Bytes)
  | [] => .error (exhausted cut)
  | 116 :: rest => do .ok (true, ← literal cut [114, 117, 101] rest)
  | 102 :: rest => do .ok (false, ← literal cut [97, 108, 115, 101] rest)
  | bytes => .error (mismatched cut .boolean bytes)

/-- Every code has a byte, so `fuel` bytes are enough. -/
def readCodesFrom (cut first : Bool) : Nat → Bytes → Except JsonError (List UInt16 × Bytes)
  | 0, _ => .error (exhausted cut)
  | fuel + 1, bytes => do
    let element (bytes : Bytes) : Except JsonError (List UInt16 × Bytes) := do
      let (code, rest) ← readNumber cut .code codeOf bytes
      let (codes, rest) ← readCodesFrom cut false fuel rest
      .ok (code :: codes, rest)
    match skipSpace bytes with
    | [] => .error (exhausted cut)
    | 93 :: rest => .ok ([], rest)
    | 44 :: rest =>
      if first then element (44 :: rest)
      else match skipSpace rest with
        | 93 :: _ => .error .malformed
        | bytes => element bytes
    | bytes => if first then element bytes else .error .malformed

def readNull (cut : Bool) (value : α) (rest : Bytes) : Except JsonError (α × Bytes) := do
  .ok (value, ← literal cut [117, 108, 108] rest)

def readCodes (cut : Bool) : Bytes → Except JsonError (List UInt16 × Bytes)
  | [] => .error (exhausted cut)
  | 110 :: rest => readNull cut [] rest
  | 91 :: rest => readCodesFrom cut true (rest.length + 1) rest
  | bytes => .error (mismatched cut .sequence bytes)

def readOptionalText (cut : Bool) : Bytes → Except JsonError (Option String × Bytes)
  | 110 :: rest => readNull cut none rest
  | bytes => do
    let (text, rest) ← readText cut bytes
    .ok (some text, rest)

def readValue (cut : Bool) (shape : Shape) (bytes : Bytes) :
    Except JsonError (shape.Value × Bytes) :=
  let bytes := skipSpace bytes
  match shape with
  | .text => readText cut bytes
  | .integer => readNumber cut .integer integerOf bytes
  | .number => readNumber cut .number floatOf bytes
  | .codes => readCodes cut bytes
  | .optionalText => readOptionalText cut bytes
  | .flag => readFlag cut bytes

def readField (cut : Bool) (seen : List Field) (m : ReleaseMetadata) (bytes : Bytes) :
    Except JsonError ((Field × ReleaseMetadata) × Bytes) := do
  let (key, rest) ← Json.string cut bytes
  match Field.ofKey? key with
  | none => .error (.data (.unknownField key (Field.all.map Field.key)))
  | some field =>
    if seen.contains field then .error (.data (.duplicateField key))
    else match skipSpace rest with
      | [] => .error (exhausted cut)
      | 58 :: rest => do
        let (value, rest) ← readValue cut field.shape rest
        .ok ((field, m.put field value), rest)
      | _ => .error .malformed

/-- Every field has a byte, so `fuel` bytes are enough. -/
def readFields (cut : Bool) : Nat → List Field → ReleaseMetadata → Bytes →
    Except JsonError (ReleaseMetadata × Bytes)
  | 0, _, _, _ => .error (exhausted cut)
  | fuel + 1, seen, m, bytes => do
    let next (bytes : Bytes) : Except JsonError (ReleaseMetadata × Bytes) := do
      let ((field, m), rest) ← readField cut seen m bytes
      readFields cut fuel (field :: seen) m rest
    match skipSpace bytes with
    | [] => .error (exhausted cut)
    | 125 :: rest => .ok (m, rest)
    | 34 :: rest => if seen.isEmpty then next rest else .error .malformed
    | 44 :: rest =>
      if seen.isEmpty then .error .malformed
      else match skipSpace rest with
        | [] => .error (exhausted cut)
        | 34 :: rest => next rest
        | _ => .error .malformed
    | _ => .error .malformed

def readElements (cut first : Bool) : List Field → ReleaseMetadata → Bytes →
    Except JsonError (ReleaseMetadata × Bytes)
  | fields, m, bytes => do
    match fields, skipSpace bytes with
    | _, [] => .error (exhausted cut)
    | _, 93 :: rest => .ok (m, rest)
    | [], _ => .error .malformed
    | field :: fields, byte :: rest =>
      let element (bytes : Bytes) : Except JsonError (ReleaseMetadata × Bytes) := do
        let (value, rest) ← readValue cut field.shape bytes
        readElements cut false fields (m.put field value) rest
      if first then element (byte :: rest)
      else if byte != 44 then .error .malformed
      else match skipSpace rest with
        | [] => .error (exhausted cut)
        | 93 :: _ => .error .malformed
        | bytes => element bytes

def readRecord (cut : Bool) (bytes : Bytes) : Except JsonError (ReleaseMetadata × Bytes) :=
  match skipSpace bytes with
  | [] => .error (exhausted cut)
  | 123 :: rest => readFields cut (rest.length + 1) [] {} rest
  | 91 :: rest => readElements cut true Field.all {} rest
  | bytes => .error (mismatched cut .record bytes)

/-- Nothing but white space may follow the document. -/
def ofJson (cut : Bool) (bytes : Bytes) : Except JsonError ReleaseMetadata := do
  let (m, rest) ← readRecord cut bytes
  if !(skipSpace rest).isEmpty then .error .malformed
  else if cut then .error .io
  else .ok m

end LinkArchive.ReleaseMetadata
