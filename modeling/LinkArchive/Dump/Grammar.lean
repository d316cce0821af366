/-! What the lines of a dump say: header fields, and links in one of two grammars. -/

namespace LinkArchive

structure MetaField where
  field : String
  value : String
  deriving DecidableEq, Repr

namespace MetaField

def isDelimiter (c : Char) : Bool := c == ':' || c == ' ' || c == '\t'

def isPadding (c : Char) : Bool := c == ' ' || c == '\t'

def isNameChar (c : Char) : Bool := 'A' ≤ c && c ≤ 'Z'

/-- Reads a header line without its leading `#`. -/
def ofText? (text : String) : Option MetaField :=
  let name := text.toList.takeWhile (!isDelimiter ·)
  match text.toList.dropWhile (!isDelimiter ·) with
  | [] => none
  | _ :: rest =>
    if name.all isNameChar then
      some ⟨String.ofList name, String.ofList (rest.dropWhile isPadding)⟩
    else none

def render (m : MetaField) : String := "#" ++ m.field ++ ": " ++ m.value

end MetaField

/-! ### Links -/

inductive Grammar where
  | generic
  /-- `shortcode|target`, where the target may have bars of its own. -/
  | fixed (width : Option Nat)
  deriving DecidableEq, Repr

inductive LinkRecord where
  | generic (source note target : String)
  | fixed (shortcode target : String)
  deriving DecidableEq, Repr

namespace LinkRecord

def source : LinkRecord → String
  | generic source _ _ => source
  | fixed shortcode _ => shortcode

def target : LinkRecord → String
  | generic _ _ target => target
  | fixed _ target => target

def note : LinkRecord → String
  | generic _ note _ => note
  | fixed _ _ => ""

def render : LinkRecord → String
  | generic source note target =>
    if note.isEmpty then source ++ "|" ++ target
    else source ++ "|" ++ note ++ "|" ++ target
  | fixed shortcode target => shortcode ++ "|" ++ target

def splitAtBar (line : String) : Option (String × String) :=
  match line.toList.dropWhile (· != '|') with
  | [] => none
  | _ :: after => some (String.ofList (line.toList.takeWhile (· != '|')), String.ofList after)

/-- Nothing if there are too many bars. Two fields are the source and the target. -/
def ofGeneric? (line : String) : Option LinkRecord :=
  match splitAtBar line with
  | none => some (generic line "" line)
  | some (source, rest) =>
    match splitAtBar rest with
    | none => some (generic source "" rest)
    | some (note, target) =>
      match splitAtBar target with
      | none => some (generic source note target)
      | some _ => none

end LinkRecord

end LinkArchive
