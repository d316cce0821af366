/-! Data is a list of bytes, and a text is the bytes of its UTF-8 form. -/

namespace LinkArchive

abbrev Bytes := List UInt8

namespace Bytes

def ofText (text : String) : Bytes := text.toUTF8.toList

def toText? (bytes : Bytes) : Option String := String.fromUTF8? (ByteArray.mk bytes.toArray)

/-- The number written by the bytes, least significant byte first. -/
def littleEndian : Bytes → Nat
  | [] => 0
  | low :: rest => low.toNat + 256 * littleEndian rest

def ofNatBigEndian (count value : Nat) : Bytes :=
  (List.range count).reverse.map fun place => UInt8.ofNat (value / Nat.pow 256 place)

def ofNatLittleEndian (count value : Nat) : Bytes :=
  (List.range count).map fun place => UInt8.ofNat (value / Nat.pow 256 place)

end Bytes

/-! ### Text from doubtful bytes -/

namespace Text

/-- The ranges of the bytes that follow a first byte in well-formed UTF-8. -/
def followers (first : UInt8) : List (UInt8 × UInt8) :=
  let any : UInt8 × UInt8 := (0x80, 0xbf)
  if first < 0xc2 then []
  else if first < 0xe0 then [any]
  else if first = 0xe0 then [(0xa0, 0xbf), any]
  else if first = 0xed then [(0x80, 0x9f), any]
  else if first < 0xf0 then [any, any]
  else if first = 0xf0 then [(0x90, 0xbf), any, any]
  else if first < 0xf4 then [any, any, any]
  else if first = 0xf4 then [(0x80, 0x8f), any, any]
  else []

def following : List (UInt8 × UInt8) → Bytes → Nat
  | (low, high) :: ranges, byte :: bytes =>
    if low ≤ byte && byte ≤ high then following ranges bytes + 1 else 0
  | _, _ => 0

/-- Each longest part that begins like a character but is none becomes U+FFFD. -/
def ofDoubtful : Bytes → String
  | [] => ""
  | first :: rest =>
    let count := following (followers first) rest
    (Bytes.toText? (first :: rest.take count)).getD "\ufffd" ++ ofDoubtful (rest.drop count)
termination_by bytes => bytes.length
decreasing_by simp only [List.length_drop, List.length_cons]; omega

/-! ### Code page 437 -/

def codePageUpper : Array Char := ("ÇüéâäàåçêëèïîìÄÅÉæÆôöòûùÿÖÜ¢£¥₧ƒ" ++
  "áíóúñÑªº¿⌐¬½¼¡«»░▒▓│┤╡╢╖╕╣║╗╝╜╛┐" ++
  "└┴┬├─┼╞╟╚╔╩╦╠═╬╧╨╤╥╙╘╒╓╫╪┘┌█▄▌▐▀" ++
  "αßΓπΣσµτΦΘΩδ∞φε∩≡±≥≤⌠⌡÷≈°∙·√ⁿ²■\u00a0").toList.toArray

def codePageChar (byte : UInt8) : Char :=
  if byte < 128 then Char.ofNat byte.toNat else codePageUpper.getD (byte.toNat - 128) ' '

def ofCodePage (bytes : Bytes) : String := String.ofList (bytes.map codePageChar)

end Text

end LinkArchive
