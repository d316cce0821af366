import LinkArchive.Json.Error
import LinkArchive.Release.Metadata

/-! Writing release metadata as a compact JSON object with all fields, in order. -/

namespace LinkArchive.Json

def escape (c : Char) : List Char :=
  if c == '"' then ['\\', '"']
  else if c == '\\' then ['\\', '\\']
  else if c == '\x08' then ['\\', 'b']
  else if c == '\x0c' then ['\\', 'f']
  else if c == '\n' then ['\\', 'n']
  else if c == '\r' then ['\\', 'r']
  else if c == '\t' then ['\\', 't']
  else if c.toNat < 32 then
    ['\\', 'u', '0', '0', Nat.digitChar (c.toNat / 16), Nat.digitChar (c.toNat % 16)]
  else [c]

def quoted (text : String) : String :=
  String.ofList ('"' :: text.toList.flatMap escape ++ ['"'])

def float (value : Float) : String :=
  if value.isFinite then Decimal.render floatStyle value.toBits else "null"

end LinkArchive.Json

namespace LinkArchive.ReleaseMetadata

def renderValue : (shape : Shape) → shape.Value → String
  | .text, value => Json.quoted value
  | .integer, value => toString value.toInt
  | .number, value => Json.float value
  | .codes, value =>
    "[" ++ String.intercalate "," (value.map fun code => toString code.toNat) ++ "]"
  | .optionalText, none => "null"
  | .optionalText, some value => Json.quoted value
  | .flag, value => if value then "true" else "false"

def renderField (m : ReleaseMetadata) (field : Field) : String :=
  Json.quoted field.key ++ ":" ++ renderValue field.shape (m.get field)

def toJson (m : ReleaseMetadata) : String :=
  "\x7b" ++ String.intercalate "," (Field.all.map m.renderField) ++ "\x7d"

end LinkArchive.ReleaseMetadata
