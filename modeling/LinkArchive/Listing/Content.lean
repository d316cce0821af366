import LinkArchive.Listing.Markup
import LinkArchive.Text.Numeral

/-! The attributes of an element, and its children with the texts decoded. Pieces of text with
nothing but silent markup between them are one text. -/

namespace LinkArchive.Markup

def decodeText (bytes : Bytes) : Except MarkupError String :=
  match bytes.toText? with
  | some text => .ok text
  | none => .error .notText

def hexValue? (c : Char) : Option Nat :=
  if '0' ≤ c && c ≤ '9' then some (c.toNat - 48)
  else if 'a' ≤ c && c ≤ 'f' then some (c.toNat - 87)
  else if 'A' ≤ c && c ≤ 'F' then some (c.toNat - 55)
  else none

def decimalValue? (c : Char) : Option Nat := if Text.isDigit c then some (c.toNat - 48) else none

def number? (base : Nat) (digit? : Char → Option Nat) (digits : List Char) : Option Nat :=
  if digits.isEmpty then none
  else digits.foldlM (fun value c => (digit? c).map (base * value + ·)) 0

/-- No character has code point zero. -/
def character? (code : Nat) : Option Char :=
  if code = 0 then none
  else if valid : code.isValidChar then some (Char.ofNatAux code valid) else none

def reference? (name : List Char) : Option Char :=
  match name with
  | '#' :: 'x' :: digits => (number? 16 hexValue? digits).bind character?
  | '#' :: digits => (number? 10 decimalValue? digits).bind character?
  | _ =>
    match String.ofList name with
    | "amp" => some '&'
    | "lt" => some '<'
    | "gt" => some '>'
    | "quot" => some '"'
    | "apos" => some '\x27'
    | _ => none

/-- `pending` holds the part of a reference that has been read, last character first. -/
def expandFrom : Option (List Char) → List Char → Except MarkupError (List Char)
  | none, [] => .ok []
  | some _, [] => .error .badReference
  | none, '&' :: rest => expandFrom (some []) rest
  | none, c :: rest => (expandFrom none rest).map (c :: ·)
  | some _, '&' :: _ => .error .badReference
  | some name, ';' :: rest =>
    match reference? name.reverse with
    | some c => (expandFrom none rest).map (c :: ·)
    | none => .error .badReference
  | some name, c :: rest => expandFrom (some (c :: name)) rest

def expand (raw : Bytes) : Except MarkupError String := do
  let text ← decodeText raw
  let chars ← expandFrom none text.toList
  return String.ofList chars

/-! ### Attributes -/

def localName (name : Bytes) : Bytes :=
  match name.dropWhile (· != 58) with
  | [] => name
  | _ :: rest => rest

/-- Every attribute has at least a byte, so `fuel` bytes are enough. -/
def attributesFrom : Nat → List Bytes → Bytes → Except MarkupError (List (Bytes × Bytes))
  | 0, _, _ => .ok []
  | fuel + 1, seen, bytes =>
    let bytes := bytes.dropWhile isSpace
    if bytes.isEmpty then .ok []
    else
      let name := bytes.takeWhile fun byte => byte != 61 && !isSpace byte
      let rest := (bytes.drop name.length).dropWhile isSpace
      match rest with
      | 61 :: rest =>
        if seen.contains name then .error .badAttribute
        else match rest.dropWhile isSpace with
          | quote :: value =>
            if quote != 34 && quote != 39 then .error .badAttribute
            else match Text.splitAt? [quote] value with
              | some (value, rest) =>
                (attributesFrom fuel (name :: seen) rest).map ((name, value) :: ·)
              | none => .error .badAttribute
          | [] => .error .badAttribute
      | _ => .error .badAttribute

def attributes (bytes : Bytes) : Except MarkupError (List (Bytes × Bytes)) :=
  attributesFrom (bytes.length + 1) [] bytes

/-! ### Children -/

inductive Content where
  | text (text : String)
  | element (name attributes : Bytes) (children : List Node)

def trimStart : List (Bool × Bytes) → List (Bool × Bytes)
  | [] => []
  | (true, raw) :: rest => (true, raw) :: rest
  | (false, raw) :: rest =>
    match raw.dropWhile isSpace with
    | [] => trimStart rest
    | kept => (false, kept) :: rest

def trimLast : List (Bool × Bytes) → List (Bool × Bytes)
  | [] => []
  | [(false, raw)] => [(false, trimEnd raw)]
  | piece :: rest => piece :: trimLast rest

def joinText (pieces : List (Bool × Bytes)) : Except MarkupError (List Content) := do
  match trimLast (trimStart pieces) with
  | [] => return []
  | pieces =>
    let texts ← pieces.mapM fun (isData, raw) => if isData then decodeText raw else expand raw
    return [.text (String.join texts)]

/-- `pending` holds the pieces of a text, last first. -/
def contentsFrom (pending : List (Bool × Bytes)) : List Node → Except MarkupError (List Content)
  | [] => joinText pending.reverse
  | .text isData raw :: rest => contentsFrom ((isData, raw) :: pending) rest
  | .element name attributes children :: rest => do
    let text ← joinText pending.reverse
    let more ← contentsFrom [] rest
    return text ++ .element name attributes children :: more

def contents (children : List Node) : Except MarkupError (List Content) := contentsFrom [] children

def textOnly (children : List Node) : Except MarkupError String := do
  match ← contents children with
  | [] => return ""
  | [.text text] => return text
  | _ => .error .unexpectedElement

end LinkArchive.Markup
