import ApiModels.Yaml.Node

/-!
# YAML text

Block style: two spaces per mapping level, the items of a sequence below their key at its own
indentation, empty collections as a pair of brackets, each entry on lines of its own. A key that is
long or has several lines is written behind a question mark.
-/

namespace ApiModels.Yaml

open ApiModels.Data

/-- The spaces in front of a line. -/
def spaces (n : Nat) : List Char := List.replicate n ' '

/-- The upper-case digits of base sixteen, `width` of them. -/
def hexDigits : Nat → Nat → List Char
  | 0, _ => []
  | width + 1, n => hexDigits width (n / 16) ++ [(Nat.digitChar (n % 16)).toUpper]

/-- A character of a double-quoted scalar. -/
def escape (c : Char) : List Char :=
  match c.toNat with
  | 0x00 => ['\\', '0']
  | 0x07 => ['\\', 'a']
  | 0x08 => ['\\', 'b']
  | 0x09 => ['\\', 't']
  | 0x0A => ['\\', 'n']
  | 0x0B => ['\\', 'v']
  | 0x0C => ['\\', 'f']
  | 0x0D => ['\\', 'r']
  | 0x1B => ['\\', 'e']
  | 0x22 => ['\\', '"']
  | 0x5C => ['\\', '\\']
  | 0x85 => ['\\', 'N']
  | 0x2028 => ['\\', 'L']
  | 0x2029 => ['\\', 'P']
  | n =>
    if isSpecial c then
      if n ≤ 0xFF then '\\' :: 'x' :: hexDigits 2 n else '\\' :: 'u' :: hexDigits 4 n
    else [c]

/-- Puts the spaces of an indented line after each run of line breaks. -/
def indentLines (indent : Nat) (atStart : Bool) : List Char → List Char
  | [] => []
  | c :: cs =>
    if isBreak c then c :: indentLines indent true cs
    else (if atStart then spaces indent else []) ++ c :: indentLines indent false cs

/-- The marks after the bar of a literal scalar: its indentation if the text does not show it, and
what becomes of the line breaks at its end. -/
def literalHeader (cs : List Char) : List Char :=
  let hint := match cs with
    | [] => []
    | c :: _ => if c = ' ' || isBreak c then ['2'] else []
  let chomp := match cs.reverse with
    | [] => ['-']
    | [c] => if isBreak c then ['+'] else ['-']
    | c :: d :: _ => if !isBreak c then ['-'] else if isBreak d then ['+'] else []
  hint ++ chomp

/-- A scalar whose further lines stand at `indent`. -/
def scalarText (indent : Nat) (style : Style) (text : String) : List Char :=
  let cs := text.toList
  match style with
  | .plain => cs
  | .singleQuoted =>
    let inner := indentLines indent false (cs.flatMap fun c => if c = '\'' then [c, c] else [c])
    let padding := if cs.getLast?.any isBreak then spaces indent else []
    '\'' :: (inner ++ padding ++ ['\''])
  | .doubleQuoted => '"' :: (cs.flatMap escape ++ ['"'])
  | .literal | .folded => '|' :: (literalHeader cs ++ '\n' :: indentLines indent true cs)

/-- Ends the line unless a line break has ended it. -/
def endLine (cs : List Char) : List Char :=
  if cs.getLast?.any isBreak then cs else cs ++ ['\n']

/-- A key that stands on one line before its colon: at most 128 bytes and no line break. -/
def isSimpleKey (text : String) : Bool :=
  text.utf8ByteSize ≤ 128 && !text.toList.any isBreak

/-- Where a node is written. -/
inductive Place where
  /-- On a line whose indentation has been written. -/
  | inline
  /-- After the colon of a key. -/
  | afterKey
deriving DecidableEq, Repr

/-- What stands between a place and a node that fits on one line. -/
def Place.gap : Place → List Char
  | .inline => []
  | .afterKey => [' ']

/-- The indentation of a scalar's further lines at a place. -/
def Place.deeper (indent : Nat) : Place → Nat
  | .inline => indent
  | .afterKey => indent + 2

/-- What stands before the value of a key, the key and its marks included, and the place and the
indentation of the value. -/
def keyText (indent : Nat) : Node → List Char × Place × Nat
  | .scalar style _ text =>
    let written := scalarText (indent + 2) style text
    if isSimpleKey text then (written ++ [':'], .afterKey, indent)
    else ('?' :: ' ' :: endLine written ++ spaces indent ++ [':', ' '], .inline, indent + 2)
  | _ => ([], .afterKey, indent)

mutual
/-- A node up to and with the end of its last line. `indent` is the indentation of the line for
an inline node and of the key for a node after a key. -/
def nodeText (place : Place) (indent : Nat) : Node → List Char
  | .scalar style _ text =>
    place.gap ++ endLine (scalarText (place.deeper indent) style text)
  | .sequence _ items =>
    if items.isEmpty then place.gap ++ ['[', ']', '\n']
    else match place with
      | .inline => (itemsText indent items).drop indent
      | .afterKey => '\n' :: itemsText indent items
  | .mapping _ entries =>
    if entries.isEmpty then place.gap ++ ['\x7b', '\x7d', '\n']
    else match place with
      | .inline => (entriesText indent entries).drop indent
      | .afterKey => '\n' :: entriesText (indent + 2) entries
  | .alias _ => []

/-- The items of a sequence, each on lines of its own. -/
def itemsText (indent : Nat) : List Node → List Char
  | [] => []
  | item :: items =>
    spaces indent ++ '-' :: ' ' :: nodeText .inline (indent + 2) item ++ itemsText indent items

/-- The entries of a mapping, each on lines of its own. -/
def entriesText (indent : Nat) : List (Node × Node) → List Char
  | [] => []
  | (key, value) :: entries =>
    let (before, place, inner) := keyText indent key
    spaces indent ++ before ++ nodeText place inner value ++ entriesText indent entries
end

/-- The YAML text of a tree. -/
def render (t : Tree) : String := String.ofList (nodeText .inline 0 (Node.ofTree t))

end ApiModels.Yaml
