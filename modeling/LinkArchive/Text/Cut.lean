/-! Cutting lists and texts at pieces, separators and white space. -/

namespace LinkArchive.Text

def splitAt? [BEq α] (needle : List α) : List α → Option (List α × List α)
  | [] => if needle.isEmpty then some ([], []) else none
  | x :: xs =>
    if needle.isPrefixOf (x :: xs) then some ([], (x :: xs).drop needle.length)
    else (splitAt? needle xs).map fun (before, after) => (x :: before, after)

/-- All of the list if there is no `needle` in it. -/
def before [BEq α] (needle : List α) : List α → List α
  | [] => []
  | x :: xs => if needle.isPrefixOf (x :: xs) then [] else x :: before needle xs

def parts [BEq α] (separator : α) : List α → List (List α)
  | [] => [[]]
  | x :: xs =>
    match parts separator xs with
    | [] => [[x]]
    | first :: rest => if x == separator then [] :: first :: rest else (x :: first) :: rest

def dropEnding? [BEq α] (ending list : List α) : Option (List α) :=
  if ending.isSuffixOf list then some (list.take (list.length - ending.length)) else none

def splitAtLast? [BEq α] (separator : α) : List α → Option (List α × List α)
  | [] => none
  | x :: xs =>
    match splitAtLast? separator xs with
    | some (before, after) => some (x :: before, after)
    | none => if x == separator then some ([], xs) else none

/-! ### White space -/

/-- Whether a character has the Unicode property `White_Space`. -/
def isBlank (c : Char) : Bool :=
  let code := c.toNat
  (0x9 ≤ code && code ≤ 0xd) || code == 0x20 || code == 0x85 || code == 0xa0 || code == 0x1680 ||
    (0x2000 ≤ code && code ≤ 0x200a) || code == 0x2028 || code == 0x2029 || code == 0x202f ||
    code == 0x205f || code == 0x3000

def dropTrailing (p : α → Bool) (xs : List α) : List α := (xs.reverse.dropWhile p).reverse

def trim (text : String) : String :=
  String.ofList (dropTrailing isBlank (text.toList.dropWhile isBlank))

end LinkArchive.Text
