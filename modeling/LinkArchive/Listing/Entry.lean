import LinkArchive.Digest.Error
import LinkArchive.Listing.Content

/-! A listing names the files of an item, each with the digests recorded for it. -/

namespace LinkArchive

open Markup

structure FileEntry where
  name : String
  source : String := ""
  format : String := ""
  derivedFrom : Option String := none
  btih : Option String := none
  mtime : Option Nat := none
  size : Option Nat := none
  md5 : Option String := none
  sha1 : Option String := none
  crc32 : Option String := none
  deriving DecidableEq, Repr

structure FileListing where
  files : List FileEntry := []
  deriving DecidableEq, Repr

namespace FileEntry

/-- Missing and blank digests are left out. -/
def digests (entry : FileEntry) : Except DigestError DigestSet := do
  let recorded := [(Algorithm.md5, entry.md5), (.sha1, entry.sha1), (.crc32, entry.crc32)]
  recorded.foldlM
    (fun set (algorithm, digest) =>
      match digest with
      | some text => set.setHex algorithm text
      | none => .ok set)
    DigestSet.empty

def single (values : List (String × α)) (key : String) : Except MarkupError (Option α) :=
  match values.filter (·.1 == key) with
  | [] => .ok none
  | [(_, value)] => .ok (some value)
  | _ => .error .duplicateField

def number (text : String) : Except MarkupError Nat :=
  match Text.word64? text.toList with
  | some value => .ok value
  | none => .error .badNumber

def ofElement (attributeText : Bytes) (children : List Node) : Except MarkupError FileEntry := do
  let attributes ← (← attributes attributeText).mapM fun (name, value) =>
    return (← decodeText (localName name), value)
  let elements ← (← contents children).filterMapM fun
    | .text _ => return none
    | .element name _ children => return some (← decodeText (localName name), children)
  let field (key : String) : Except MarkupError (Option String) := do
    (← single elements key).mapM textOnly
  let given (key : String) : Except MarkupError (Option String) := do
    (← single attributes key).mapM expand
  match ← given "name" with
  | none => .error .missingField
  | some name =>
    return {
      name
      source := (← given "source").getD ""
      format := (← field "format").getD ""
      derivedFrom := ← field "original"
      btih := ← field "btih"
      mtime := ← (← field "mtime").mapM number
      size := ← (← field "size").mapM number
      md5 := ← field "md5"
      sha1 := ← field "sha1"
      crc32 := ← field "crc32" }

end FileEntry

namespace FileListing

def isFile (name : Bytes) : Bool := localName name == Bytes.ofText "file"

/-- Files that follow each other under the name of the first, and the children after them. -/
def run (first : Bytes) : List Content → Except MarkupError (List FileEntry × List Content)
  | [] => .ok ([], [])
  | .text _ :: _ => .error .unexpectedText
  | .element name attributes children :: rest =>
    if name == first then do
      let entry ← FileEntry.ofElement attributes children
      let (entries, after) ← run first rest
      return (entry :: entries, after)
    else .ok ([], .element name attributes children :: rest)

/-- Files may be preceded and followed by anything else. -/
def ofContents : List Content → Except MarkupError FileListing
  | [] => .ok {}
  | .text _ :: rest => ofContents rest
  | .element name attributes children :: rest => do
    let _ ← decodeText (localName name)
    if isFile name then
      let (files, after) ← run name (.element name attributes children :: rest)
      let others ← after.filterMapM fun
        | .text _ => return none
        | .element name _ _ => return some (← decodeText (localName name))
      if others.contains "file" then .error .duplicateField
      return { files }
    else ofContents rest

def parse (document : Bytes) : Except MarkupError FileListing := do
  match ← Markup.read document with
  | .text .. => .error .noElement
  | .element _ attributeText children =>
    for (name, _) in ← attributes attributeText do
      let _ ← decodeText (localName name)
    ofContents (← contents children)

def get? (listing : FileListing) (name : String) : Option FileEntry :=
  listing.files.find? (·.name == name)

end FileListing

end LinkArchive
