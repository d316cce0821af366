import LinkArchive.Bytes
import LinkArchive.Text.Cut

/-! Shortcodes in the paths of short URLs, codes that a user chose, and the order of codes. -/

namespace LinkArchive.Shortcode

def endsCode : List Char :=
  ['"', ']', ')', '>', '&', '\u2019', '\u201d', ' ', '\u00a0', '\u200b']

def isPlaceholder (code : List Char) : Bool :=
  2 ≤ code.length &&
    ((code.head? == some '<' && code.getLast? == some '>') ||
      (code.head? == some '[' && code.getLast? == some ']'))

def commonFiles : List String := ["favicon.ico", "robots.txt"]

def isStop (c : Char) : Bool := c == '.' || c == ';'

def isSlash (c : Char) : Bool := c == '/'

/-- The code without debris at its end and without a URL that follows it. -/
def strip (code : List Char) : List Char :=
  let code := code.takeWhile (!endsCode.contains ·)
  let code := Text.dropTrailing isSlash (Text.dropTrailing isStop code)
  Text.before "https:/".toList (Text.before "http:/".toList code)

/-- Empty if a path has no shortcode. -/
def ofPath (path : String) : String :=
  let code := path.toList.dropWhile isSlash
  if isPlaceholder code then ""
  else
    let code := String.ofList (strip code)
    if commonFiles.contains code then "" else code

/-- Whether a code has a character outside the alphabet of generated codes, so that a user chose it.
Without an alphabet nothing is known to be chosen. -/
def isVanity (alphabet code : String) : Bool :=
  !alphabet.isEmpty && code.toList.any (!alphabet.toList.contains ·)

/-- Generated codes come first, then short ones, then those with the lesser bytes. -/
def le (alphabet first second : String) : Bool :=
  let a := Bytes.ofText first
  let b := Bytes.ofText second
  if isVanity alphabet first != isVanity alphabet second then isVanity alphabet second
  else if a.length != b.length then a.length < b.length
  else decide (a ≤ b)

def sort (alphabet : String) (codes : List String) : List String := codes.mergeSort (le alphabet)

end LinkArchive.Shortcode
