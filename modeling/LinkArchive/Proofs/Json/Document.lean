import LinkArchive.Bytes

/-!
# JSON documents

Which bytes are a JSON document, and of which value: `Json.Document`. A number is kept as it is
written, and a text as the characters that it stands for, since these are all that tells one value
from another.
-/

namespace LinkArchive.Json

/-! ### Numbers -/

abbrev Digit := Fin 10

def Digit.byte (digit : Digit) : UInt8 := UInt8.ofNat (48 + digit.val)

def digitBytes (digits : List Digit) : Bytes := digits.map Digit.byte

/-- The number that digits write after those of `value`. -/
def valueFrom (value : Nat) (digits : List Digit) : Nat :=
  digits.foldl (fun value digit => 10 * value + digit.val) value

inductive Sign where
  | plus
  | minus
  deriving DecidableEq, Repr

def Sign.byte : Sign → UInt8
  | plus => 43
  | minus => 45

structure Exponent where
  capital : Bool := false
  sign : Option Sign := none
  digits : List Digit
  nonempty : digits ≠ [] := by decide
  deriving DecidableEq

def Exponent.bytes (exponent : Exponent) : Bytes :=
  (if exponent.capital then 69 else 101) ::
    (exponent.sign.toList.map Sign.byte ++ digitBytes exponent.digits)

/-- A number as it is written. A zero in front of other digits is not allowed. -/
structure NumberLiteral where
  negative : Bool := false
  whole : List Digit
  /-- The digits behind the point; without any there is no point. -/
  fraction : List Digit := []
  exponent : Option Exponent := none
  nonempty : whole ≠ [] := by decide
  unpadded : whole.head? = some 0 → whole = [0] := by decide
  deriving DecidableEq

namespace NumberLiteral

def fractionBytes (literal : NumberLiteral) : Bytes :=
  if literal.fraction.isEmpty then [] else 46 :: digitBytes literal.fraction

def exponentBytes (literal : NumberLiteral) : Bytes :=
  literal.exponent.elim [] Exponent.bytes

def bytes (literal : NumberLiteral) : Bytes :=
  (if literal.negative then [45] else []) ++
    (digitBytes literal.whole ++ (literal.fractionBytes ++ literal.exponentBytes))

/-- The integer that a literal is without fraction and exponent. Minus zero is none. -/
def integer? (literal : NumberLiteral) : Option Int :=
  if literal.fraction.isEmpty && literal.exponent.isNone then
    if literal.negative then
      if literal.whole = [0] then none else some (-valueFrom 0 literal.whole)
    else some (valueFrom 0 literal.whole)
  else none

end NumberLiteral

/-! ### Texts -/

/-- A hexadecimal digit of either case. -/
inductive HexDigit : Nat → UInt8 → Prop where
  | decimal {value : Nat} (small : value < 10) : HexDigit value (UInt8.ofNat (48 + value))
  | lower {value : Nat} (large : 10 ≤ value) (bound : value < 16) :
      HexDigit value (UInt8.ofNat (87 + value))
  | upper {value : Nat} (large : 10 ≤ value) (bound : value < 16) :
      HexDigit value (UInt8.ofNat (55 + value))

/-- The four digits of a UTF-16 unit. -/
inductive Unit16 : Nat → Bytes → Prop where
  | digits {a b c d : Nat} {w x y z : UInt8} (first : HexDigit a w) (second : HexDigit b x)
      (third : HexDigit c y) (fourth : HexDigit d z) :
      Unit16 (4096 * a + 256 * b + 16 * c + d) [w, x, y, z]

/-- The characters with a short escape, and the byte after the backslash. -/
def shortEscapes : List (Char × UInt8) :=
  [('"', 34), ('\\', 92), ('/', 47), ('\x08', 98), ('\x0c', 102), ('\n', 110), ('\r', 114),
    ('\t', 116)]

/-- How a character is written in a text: as itself, with a short escape, or as one UTF-16 unit or
two. -/
inductive Spelled : Char → Bytes → Prop where
  | plain {c : Char} (printing : 32 ≤ c.toNat) (unquoted : c ≠ '"') (unescaped : c ≠ '\\') :
      Spelled c (String.utf8EncodeChar c)
  | short {c : Char} {byte : UInt8} (listed : (c, byte) ∈ shortEscapes) : Spelled c [92, byte]
  | unit {code : Nat} {digits : Bytes} (written : Unit16 code digits)
      (whole : code < 0xd800 ∨ 0xdfff < code) : Spelled (Char.ofNat code) (92 :: 117 :: digits)
  | pair {high low : Nat} {first second : Bytes} (written : Unit16 (0xd800 + high) first)
      (more : Unit16 (0xdc00 + low) second) (high_small : high < 0x400) (low_small : low < 0x400) :
      Spelled (Char.ofNat (0x10000 + 0x400 * high + low))
        (92 :: 117 :: (first ++ 92 :: 117 :: second))

/-- The bytes between the quotes of a text. -/
inductive SpelledAll : List Char → Bytes → Prop where
  | nil : SpelledAll [] []
  | cons {c : Char} {chars : List Char} {first rest : Bytes} (head : Spelled c first)
      (tail : SpelledAll chars rest) : SpelledAll (c :: chars) (first ++ rest)

/-- A character that may stand for itself. -/
def isPlain (c : Char) : Bool := decide (32 ≤ c.toNat ∧ c ≠ '"' ∧ c ≠ '\\')

theorem SpelledAll.plain {chars : List Char} (plain : chars.all isPlain = true) :
    SpelledAll chars (chars.flatMap String.utf8EncodeChar) := by
  induction chars with
  | nil => exact .nil
  | cons c chars ih =>
    obtain ⟨first, others⟩ := (Bool.and_eq_true _ _).mp plain
    obtain ⟨printing, unquoted, unescaped⟩ := of_decide_eq_true first
    exact .cons (.plain printing unquoted unescaped) (ih others)

/-- A text in its quotes. -/
inductive Quoted : String → Bytes → Prop where
  | quotes {text : String} {body : Bytes} (spelled : SpelledAll text.toList body) :
      Quoted text (34 :: (body ++ [34]))

/-! ### Values -/

inductive Value where
  | null
  | boolean (value : Bool)
  | number (literal : NumberLiteral)
  | text (text : String)
  | array (elements : List Value)
  | object (members : List (String × Value))

/-- White space. -/
def Blank (bytes : Bytes) : Prop := ∀ byte ∈ bytes, byte = 32 ∨ byte = 9 ∨ byte = 10 ∨ byte = 13

instance (bytes : Bytes) : Decidable (Blank bytes) :=
  List.decidableBAll (fun byte => byte = 32 ∨ byte = 9 ∨ byte = 10 ∨ byte = 13) bytes

mutual

/-- How values are written, without white space around them. -/
inductive Written : Value → Bytes → Prop where
  | null : Written .null [110, 117, 108, 108]
  | true : Written (.boolean true) [116, 114, 117, 101]
  | false : Written (.boolean false) [102, 97, 108, 115, 101]
  | number (literal : NumberLiteral) : Written (.number literal) literal.bytes
  | text {text : String} {bytes : Bytes} (quoted : Quoted text bytes) : Written (.text text) bytes
  | emptyArray {space : Bytes} (blank : Blank space) : Written (.array []) (91 :: (space ++ [93]))
  | array {elements : List Value} {bytes : Bytes} (written : WrittenElements elements bytes) :
      Written (.array elements) (91 :: (bytes ++ [93]))
  | emptyObject {space : Bytes} (blank : Blank space) :
      Written (.object []) (123 :: (space ++ [125]))
  | object {members : List (String × Value)} {bytes : Bytes}
      (written : WrittenMembers members bytes) : Written (.object members) (123 :: (bytes ++ [125]))

/-- One element or more, with commas between them. -/
inductive WrittenElements : List Value → Bytes → Prop where
  | last {value : Value} {before bytes after : Bytes} (blank : Blank before)
      (written : Written value bytes) (blank_after : Blank after) :
      WrittenElements [value] (before ++ (bytes ++ after))
  | more {value : Value} {elements : List Value} {before bytes after rest : Bytes}
      (blank : Blank before) (written : Written value bytes) (blank_after : Blank after)
      (others : WrittenElements elements rest) :
      WrittenElements (value :: elements) (before ++ (bytes ++ (after ++ 44 :: rest)))

/-- One member or more, with commas between them. -/
inductive WrittenMembers : List (String × Value) → Bytes → Prop where
  | last {member : String × Value} {bytes : Bytes} (written : WrittenMember member bytes) :
      WrittenMembers [member] bytes
  | more {member : String × Value} {members : List (String × Value)} {bytes rest : Bytes}
      (written : WrittenMember member bytes) (others : WrittenMembers members rest) :
      WrittenMembers (member :: members) (bytes ++ 44 :: rest)

/-- A key, a colon and a value, with white space around each. -/
inductive WrittenMember : String × Value → Bytes → Prop where
  | member {key : String} {value : Value} {before name colon lead bytes after : Bytes}
      (blank : Blank before) (quoted : Quoted key name) (blank_colon : Blank colon)
      (blank_lead : Blank lead) (written : Written value bytes) (blank_after : Blank after) :
      WrittenMember (key, value)
        (before ++ (name ++ (colon ++ 58 :: (lead ++ (bytes ++ after)))))

end

/-- A value with white space around it. -/
inductive Document : Value → Bytes → Prop where
  | around {value : Value} {before bytes after : Bytes} (blank : Blank before)
      (written : Written value bytes) (blank_after : Blank after) :
      Document value (before ++ (bytes ++ after))

end LinkArchive.Json
