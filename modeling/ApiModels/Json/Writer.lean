import ApiModels.Data.Tree

/-!
# JSON text

Pretty-printed JSON: two spaces per level, one entry per line, empty collections as a pair of
brackets, characters beyond ASCII as they are, and no line feed at the end.
-/

namespace ApiModels.Json

open ApiModels.Data

/-- The digit characters of base sixteen. -/
def hexDigit (n : Nat) : Char := Nat.digitChar n

/-- A character inside a quoted string. -/
def escape (c : Char) : List Char :=
  match c with
  | '"' => ['\\', '"']
  | '\\' => ['\\', '\\']
  | '\n' => ['\\', 'n']
  | '\r' => ['\\', 'r']
  | '\t' => ['\\', 't']
  | c =>
    if c.toNat = 8 then ['\\', 'b']
    else if c.toNat = 12 then ['\\', 'f']
    else if c.toNat < 0x20 then
      ['\\', 'u', '0', '0', hexDigit (c.toNat / 16), hexDigit (c.toNat % 16)]
    else [c]

/-- A text between quotation marks. -/
def quoted (text : String) : List Char := '"' :: (text.toList.flatMap escape ++ ['"'])

/-- A line feed and the spaces of a level. -/
def newLine (level : Nat) : List Char := '\n' :: List.replicate (2 * level) ' '

/-- Items of a collection, one per line, between its brackets. -/
def block (opening closing : Char) (level : Nat) (items : List (List Char)) : List Char :=
  match items with
  | [] => [opening, closing]
  | items =>
    opening :: (newLine (level + 1) ++
      List.intercalate (',' :: newLine (level + 1)) items ++ newLine level ++ [closing])

mutual
/-- The text of a tree whose own line is at `level`. -/
def treeText (level : Nat) : Tree → List Char
  | .text value => quoted value
  | .texts values => block '[' ']' level (values.map quoted)
  | .map entries => block '\x7b' '\x7d' level (entryTexts (level + 1) entries)

/-- The texts of map entries at `level`. -/
def entryTexts (level : Nat) : List (String × Tree) → List (List Char)
  | [] => []
  | (name, value) :: rest =>
    (quoted name ++ [':', ' '] ++ treeText level value) :: entryTexts level rest
end

/-- The JSON text of a tree. -/
def render (t : Tree) : String := String.ofList (treeText 0 t)

end ApiModels.Json
