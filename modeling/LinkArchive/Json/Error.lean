import LinkArchive.Decimal.Written
import LinkArchive.Text.Quoted

/-! A document is read from its start and the first problem is reported: the data is not to be had,
ends too early, is no JSON, or holds something else than what is due. -/

namespace LinkArchive.Json

inductive Found where
  | null
  | boolean (value : Bool)
  | integer (value : Int)
  | float (bits : UInt64)
  | string (text : String)
  | sequence
  | map
  deriving DecidableEq, Repr

inductive Expected where
  | string
  | integer
  | code
  | number
  | boolean
  | sequence
  | record
  deriving DecidableEq, Repr

inductive DataError where
  | unknownField (name : String) (known : List String)
  | duplicateField (name : String)
  | invalidType (found : Found) (expected : Expected)
  | invalidValue (found : Found) (expected : Expected)
  deriving DecidableEq, Repr

inductive JsonError where
  | io
  | eof
  | malformed
  | data (error : DataError)
  deriving DecidableEq, Repr

def floatStyle : Decimal.Style := ⟨-5, 15, 2⟩

def ticked (text : String) : String := "`" ++ text ++ "`"

def Found.describe : Found → String
  | null => "null"
  | boolean value => "boolean " ++ ticked (if value then "true" else "false")
  | integer value => "integer " ++ ticked (toString value)
  | float bits => "floating point " ++ ticked (Decimal.render floatStyle bits)
  | string text => "string " ++ Text.quoted text
  | sequence => "sequence"
  | map => "map"

def Expected.describe : Expected → String
  | string => "a string"
  | integer => "i64"
  | code => "u16"
  | number => "f64"
  | boolean => "a boolean"
  | sequence => "a sequence"
  | record => "struct ReleaseMetadata"

def DataError.message : DataError → String
  | unknownField name known =>
    "unknown field " ++ ticked name ++ ", expected one of " ++
      String.intercalate ", " (known.map ticked)
  | duplicateField name => "duplicate field " ++ ticked name
  | invalidType found expected =>
    "invalid type: " ++ found.describe ++ ", expected " ++ expected.describe
  | invalidValue found expected =>
    "invalid value: " ++ found.describe ++ ", expected " ++ expected.describe

end LinkArchive.Json
