import ApiModels.Json.Value

/-!
# Reading JSON

A text holds exactly one value, with white space around it. Strings have no raw control characters;
numbers have no leading zero and no bare point. Escapes in base sixteen are UTF-16 units; where they
do not pair up, the value is broken.
-/

namespace ApiModels.Json

/-- The white space of JSON. -/
def isSpace (c : Char) : Bool := c = ' ' || c = '\n' || c = '\t' || c = '\r'

/-- Drops white space at the front. -/
def skipSpace (cs : List Char) : List Char := cs.dropWhile isSpace

/-- The value of a digit of base sixteen. -/
def hexValue? (c : Char) : Option Nat :=
  if '0' ≤ c ∧ c ≤ '9' then some (c.toNat - '0'.toNat)
  else if 'a' ≤ c ∧ c ≤ 'f' then some (c.toNat - 'a'.toNat + 10)
  else if 'A' ≤ c ∧ c ≤ 'F' then some (c.toNat - 'A'.toNat + 10)
  else none

/-- The value of four digits of base sixteen. -/
def unit? (a b c d : Char) : Option Nat := do
  return ((((← hexValue? a) * 16 + (← hexValue? b)) * 16 + (← hexValue? c)) * 16 + (← hexValue? d))

/-- The character of a UTF-16 unit that is not half of a pair. -/
def single? (unit : Nat) : Option Char :=
  if 0xD800 ≤ unit ∧ unit < 0xE000 then none else some (Char.ofNat unit)

/-- The character of a surrogate pair. -/
def pair? (high low : Nat) : Option Char :=
  if 0xD800 ≤ high ∧ high < 0xDC00 ∧ 0xDC00 ≤ low ∧ low < 0xE000 then
    some (Char.ofNat (0x10000 + (high - 0xD800) * 0x400 + (low - 0xDC00)))
  else none

/-- The character that a one-letter escape stands for. -/
def shortEscape? : Char → Option Char
  | '"' => some '"'
  | '\\' => some '\\'
  | '/' => some '/'
  | 'b' => some (Char.ofNat 8)
  | 'f' => some (Char.ofNat 12)
  | 'n' => some '\n'
  | 'r' => some '\r'
  | 't' => some '\t'
  | _ => none

/-- A piece of a string. -/
inductive Piece where
  | character (c : Char)
  /-- A UTF-16 unit written as an escape. -/
  | unit (n : Nat)
deriving DecidableEq, Repr

/-- The text of pieces, or `none` if half of a surrogate pair stands alone. -/
def text? : List Piece → Option (List Char)
  | [] => some []
  | .character c :: pieces => (text? pieces).map (c :: ·)
  | .unit n :: pieces =>
    match single? n, pieces with
    | some c, pieces => (text? pieces).map (c :: ·)
    | none, .unit m :: pieces => do return (← pair? n m) :: (← text? pieces)
    | none, _ => none

/-- The pieces of a string up to its closing quotation mark, and what follows the mark. -/
def stringRest? : List Char → Option (List Piece × List Char)
  | [] => none
  | '"' :: rest => some ([], rest)
  | '\\' :: 'u' :: a :: b :: c :: d :: rest => do
    let unit ← unit? a b c d
    let (pieces, after) ← stringRest? rest
    return (.unit unit :: pieces, after)
  | '\\' :: c :: rest => do
    let character ← shortEscape? c
    let (pieces, after) ← stringRest? rest
    return (.character character :: pieces, after)
  | c :: rest =>
    if c.toNat < 0x20 || c = '\\' then none
    else do
      let (pieces, after) ← stringRest? rest
      return (.character c :: pieces, after)

/-- At least one digit, and what follows the digits. -/
def digits? (cs : List Char) : Option (List Char) :=
  if (cs.takeWhile Char.isDigit).isEmpty then none else some (cs.dropWhile Char.isDigit)

/-- What follows the whole part of a number. -/
def whole? : List Char → Option (List Char)
  | '0' :: c :: rest => if c.isDigit then none else some (c :: rest)
  | cs => digits? cs

/-- What follows the fraction of a number, if it has one. -/
def fraction? : List Char → Option (List Char)
  | '.' :: rest => digits? rest
  | cs => some cs

/-- What follows the exponent of a number, if it has one. -/
def exponent? : List Char → Option (List Char)
  | c :: rest =>
    if c = 'e' || c = 'E' then
      match rest with
      | '+' :: rest => digits? rest
      | '-' :: rest => digits? rest
      | rest => digits? rest
    else some (c :: rest)
  | [] => some []

/-- What follows a number. -/
def number? (cs : List Char) : Option (List Char) := do
  let cs := match cs with
    | '-' :: rest => rest
    | cs => cs
  exponent? (← fraction? (← whole? cs))

/-- What follows a given word. -/
def word? (word cs : List Char) : Option (List Char) :=
  if word.isPrefixOf cs then some (cs.drop word.length) else none

/-- The value that a string is. -/
def stringValue (pieces : List Piece) : Value :=
  match text? pieces with
  | some text => .text (String.ofList text)
  | none => .broken

/-- The value that an object with these names and values is. -/
def objectValue (entries : List (List Piece × Value)) : Value :=
  match entries.mapM fun (name, value) => (text? name).map fun text => (String.ofList text, value) with
  | some entries => .object entries
  | none => .broken

mutual
/-- The value at the front, and what follows it. Each step into a value uses up a character, so
as much fuel as there are characters is enough. -/
def value? : Nat → List Char → Option (Value × List Char)
  | 0, _ => none
  | fuel + 1, cs =>
    match skipSpace cs with
    | [] => none
    | '"' :: rest => do
      let (pieces, after) ← stringRest? rest
      return (stringValue pieces, after)
    | '[' :: rest =>
      match skipSpace rest with
      | ']' :: after => some (.list [], after)
      | rest => do
        let (items, after) ← items? fuel rest
        return (.list items, after)
    | '\x7b' :: rest =>
      match skipSpace rest with
      | '\x7d' :: after => some (.object [], after)
      | rest => do
        let (entries, after) ← entries? fuel rest
        return (objectValue entries, after)
    | 'n' :: rest => (word? ['u', 'l', 'l'] rest).map (.null, ·)
    | 't' :: rest => (word? ['r', 'u', 'e'] rest).map (.bool true, ·)
    | 'f' :: rest => (word? ['a', 'l', 's', 'e'] rest).map (.bool false, ·)
    | cs => (number? cs).map (.number, ·)

/-- The items of a list up to its closing bracket. -/
def items? : Nat → List Char → Option (List Value × List Char)
  | 0, _ => none
  | fuel + 1, cs => do
    let (item, rest) ← value? fuel cs
    match skipSpace rest with
    | ',' :: rest =>
      let (items, after) ← items? fuel rest
      return (item :: items, after)
    | ']' :: after => return ([item], after)
    | _ => none

/-- The names and values of an object up to its closing bracket. -/
def entries? : Nat → List Char → Option (List (List Piece × Value) × List Char)
  | 0, _ => none
  | fuel + 1, cs => do
    match skipSpace cs with
    | '"' :: rest =>
      let (name, rest) ← stringRest? rest
      match skipSpace rest with
      | ':' :: rest =>
        let (value, rest) ← value? fuel rest
        match skipSpace rest with
        | ',' :: rest =>
          let (entries, after) ← entries? fuel rest
          return ((name, value) :: entries, after)
        | '\x7d' :: after => return ([(name, value)], after)
        | _ => none
      | _ => none
    | _ => none
end

/-- The value that a text holds. -/
def read? (text : String) : Option Value :=
  let cs := text.toList
  match value? (2 * cs.length + 2) cs with
  | some (value, rest) => if (skipSpace rest).isEmpty then some value else none
  | none => none

end ApiModels.Json
