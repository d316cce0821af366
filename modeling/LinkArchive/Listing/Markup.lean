import LinkArchive.Bytes
import LinkArchive.Text.Cut

/-! The elements, text and character data of an XML document, up to the end of its first element.
Comments, declarations, processing instructions and document types say nothing. -/

namespace LinkArchive.Markup

inductive MarkupError where
  | malformed
  /-- An end tag without its start tag, or a start tag without its end tag. -/
  | unbalanced
  | noElement
  | badAttribute
  | badReference
  | notText
  | unexpectedElement
  | unexpectedText
  | duplicateField
  | missingField
  | badNumber
  deriving DecidableEq, Repr

def isSpace (byte : UInt8) : Bool := byte == 32 || byte == 9 || byte == 10 || byte == 13

inductive Token where
  | text (raw : Bytes)
  | data (raw : Bytes)
  | opening (name attributes : Bytes)
  | empty (name attributes : Bytes)
  | closing (name : Bytes)
  | silent
  deriving DecidableEq, Repr

/-- What stands before and after the `>` that ends a tag. A `>` in quotes ends none. -/
def tagEnd (quote : Option UInt8) : Bytes → Option (Bytes × Bytes)
  | [] => none
  | byte :: rest =>
    let continued (quote : Option UInt8) :=
      (tagEnd quote rest).map fun (before, after) => (byte :: before, after)
    match quote with
    | some mark => continued (if byte == mark then none else quote)
    | none =>
      if byte == 62 then some ([], rest)
      else if byte == 34 || byte == 39 then continued (some byte)
      else continued none

/-- What follows the `>` that ends a document type, in which `<` and `>` are balanced. -/
def doctypeEnd (depth : Nat) : Bytes → Option (Bytes × Bytes)
  | [] => none
  | byte :: rest =>
    let continued (depth : Nat) :=
      (doctypeEnd depth rest).map fun (before, after) => (byte :: before, after)
    if byte == 60 then continued (depth + 1)
    else if byte == 62 then if depth = 0 then some ([], rest) else continued (depth - 1)
    else continued depth

/-- Upper and lower case are not told apart. -/
def startsWith (start : String) (bytes : Bytes) : Bool :=
  let upper (byte : UInt8) : UInt8 := if 97 ≤ byte && byte ≤ 122 then byte - 32 else byte
  (Bytes.ofText start).isPrefixOf ((bytes.take start.utf8ByteSize).map upper)

def declaration (bytes : Bytes) : Except MarkupError (Token × Bytes) :=
  match bytes with
  | 45 :: 45 :: rest =>
    match Text.splitAt? [45, 45, 62] rest with
    | some (_, after) => .ok (.silent, after)
    | none => .error .malformed
  | 91 :: _ =>
    if startsWith "[CDATA[" bytes then
      match Text.splitAt? [93, 93, 62] (bytes.drop 7) with
      | some (raw, after) => .ok (.data raw, after)
      | none => .error .malformed
    else .error .malformed
  | _ =>
    if startsWith "DOCTYPE" bytes then
      match doctypeEnd 0 (bytes.drop 7) with
      | some (name, after) => if name.all isSpace then .error .malformed else .ok (.silent, after)
      | none => .error .malformed
    else .error .malformed

def trimEnd (bytes : Bytes) : Bytes := (bytes.reverse.dropWhile isSpace).reverse

def element (inside : Bytes) : Token :=
  let split (tag : Bytes) : Bytes × Bytes :=
    (tag.takeWhile (!isSpace ·), tag.dropWhile (!isSpace ·))
  if inside.getLast? == some 47 then
    let (name, attributes) := split inside.dropLast
    .empty name attributes
  else
    let (name, attributes) := split inside
    .opening name attributes

def token (first : UInt8) (rest : Bytes) : Except MarkupError (Token × Bytes) :=
  if first != 60 then
    .ok (.text (first :: rest.takeWhile (· != 60)), rest.dropWhile (· != 60))
  else match rest with
    | 33 :: inside => declaration inside
    | 63 :: inside =>
      match Text.splitAt? [63, 62] inside with
      | some (_, after) => .ok (.silent, after)
      | none => .error .malformed
    | 47 :: inside =>
      match Text.splitAt? [62] inside with
      | some (name, after) => .ok (.closing (trimEnd name), after)
      | none => .error .malformed
    | _ =>
      match tagEnd none rest with
      | some (inside, after) => .ok (element inside, after)
      | none => .error .malformed

inductive Node where
  | text (isData : Bool) (raw : Bytes)
  | element (name attributes : Bytes) (children : List Node)

/-- An element whose end has not been reached; its children last first. -/
structure Opened where
  name : Bytes
  attributes : Bytes
  children : List Node := []

def addNode (node : Node) : List Opened → List Opened
  | [] => []
  | top :: rest => { top with children := node :: top.children } :: rest

def isBlank (raw : Bytes) : Bool := raw.all isSpace

/-- Takes a piece of the document: the open elements, or the first element once it has ended. -/
def step (opened : List Opened) : Token → Except MarkupError (List Opened ⊕ Node)
  | .silent => .ok (.inl opened)
  | .text raw =>
    if opened.isEmpty && !isBlank raw then .error .noElement
    else .ok (.inl (addNode (.text false raw) opened))
  | .data raw =>
    if opened.isEmpty then .error .noElement else .ok (.inl (addNode (.text true raw) opened))
  | .opening name attributes => .ok (.inl (⟨name, attributes, []⟩ :: opened))
  | .empty name attributes =>
    let node := Node.element name attributes []
    if opened.isEmpty then .ok (.inr node) else .ok (.inl (addNode node opened))
  | .closing name =>
    match opened with
    | [] => .error .unbalanced
    | top :: rest =>
      if top.name != name then .error .unbalanced
      else
        let node := Node.element top.name top.attributes top.children.reverse
        if rest.isEmpty then .ok (.inr node) else .ok (.inl (addNode node rest))

/-- Every piece has at least a byte, so `fuel` bytes are enough. -/
def readFrom : Nat → List Opened → Bytes → Except MarkupError Node
  | 0, _, _ => .error .noElement
  | _, opened, [] => .error (if opened.isEmpty then .noElement else .unbalanced)
  | fuel + 1, opened, first :: rest => do
    let (token, after) ← token first rest
    match ← step opened token with
    | .inl opened => readFrom fuel opened after
    | .inr node => .ok node

def read (document : Bytes) : Except MarkupError Node :=
  let bytes :=
    if [0xef, 0xbb, 0xbf].isPrefixOf document then document.drop 3 else document
  readFrom (bytes.length + 1) [] bytes

end LinkArchive.Markup
