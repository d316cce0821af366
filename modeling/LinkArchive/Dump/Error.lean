import LinkArchive.Digest.Error

/-! An error takes the place of a record or of the header; a warning goes with a record that is
returned all the same. -/

namespace LinkArchive

inductive DumpError where
  | malformedHeader (line : String)
  | tooManyFields (line : String)
  | missingSeparator (number : Nat) (text : String)
  | invalidUtf8 (number : Nat)
  | io (error : ReadError)
  deriving DecidableEq, Repr

namespace DumpError

/-- Whether the data could not be read, as opposed to a single bad line. -/
def isIo : DumpError → Bool
  | io _ => true
  | _ => false

def missingSeparatorText (number : Nat) (text : String) : String :=
  "line " ++ toString number ++ ": link missing bar separator: " ++ text

def message (cause : String) : DumpError → Option String
  | malformedHeader line => some ("malformed header line: " ++ line)
  | tooManyFields line => some ("link line has too many bars: " ++ line)
  | missingSeparator number text => some (missingSeparatorText number text)
  | invalidUtf8 number => some ("line " ++ toString number ++ ": invalid UTF-8")
  | io error => error.message cause

end DumpError

inductive Warning where
  | missingSeparator (number : Nat) (text : String)
  | shortcodeWidth (number : Nat) (shortcode : String) (expected actual : Nat)
  deriving DecidableEq, Repr

namespace Warning

def line : Warning → Nat
  | missingSeparator number _ => number
  | shortcodeWidth number _ _ _ => number

def message : Warning → String
  | missingSeparator number text => DumpError.missingSeparatorText number text
  | shortcodeWidth number shortcode expected actual =>
    "line " ++ toString number ++ ": shortcode " ++ Text.quoted shortcode ++ " has length " ++
      toString actual ++ ", expected " ++ toString expected

end Warning

end LinkArchive
