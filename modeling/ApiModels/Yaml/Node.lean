import ApiModels.Data.Tree
import ApiModels.Yaml.Character
import ApiModels.Yaml.Token
import ApiModels.Yaml.Word

/-!
# YAML nodes

A document as scalars, sequences and mappings. A scalar keeps the style it is written in, since only
a plain scalar can stand for something other than its text. `Node.ofTree` chooses the style of each
text of a tree so that it is read back as that text.
-/

namespace ApiModels.Yaml

open ApiModels.Data

/-- A node of a document; an alias stands for the node with a number. -/
inductive Node where
  | scalar (style : Style) (tag : Option String) (text : String)
  | sequence (tag : Option String) (items : List Node)
  | mapping (tag : Option String) (entries : List (Node × Node))
  | alias (number : Nat)
deriving Repr, Inhabited

mutual
/-- The number of marks that a node is made of: a collection has one for each of its ends. -/
def Node.size : Node → Nat
  | .scalar .. => 1
  | .sequence _ items => 2 + Node.itemsSize items
  | .mapping _ entries => 2 + Node.entriesSize entries
  | .alias _ => 1

/-- The number of marks of the items of a sequence. -/
def Node.itemsSize : List Node → Nat
  | [] => 0
  | item :: rest => item.size + Node.itemsSize rest

/-- The number of marks of the entries of a mapping. -/
def Node.entriesSize : List (Node × Node) → Nat
  | [] => 0
  | (key, value) :: rest => key.size + value.size + Node.entriesSize rest
end

/-- Whether some neighbours of the text are in the relation. -/
def anyPair (related : Char → Char → Bool) : List Char → Bool
  | a :: b :: rest => related a b || anyPair related (b :: rest)
  | _ => false

/-- Whether a space stands directly before a line break. -/
def hasSpaceBeforeBreak (cs : List Char) : Bool := anyPair (fun a b => a = ' ' && isBreak b) cs

/-- Whether a space stands directly after a line break. -/
def hasSpaceAfterBreak (cs : List Char) : Bool := anyPair (fun a b => isBreak a && b = ' ') cs

/-- Whether nothing, a blank or a line break comes next. -/
def endsWord : List Char → Bool
  | [] => true
  | c :: _ => c = ' ' || c = '\t' || isBreak c

/-- Whether the beginning of the text would be read as an indicator. -/
def opensLikeIndicator : List Char → Bool
  | [] => false
  | c :: cs =>
    indicators.contains c || ((c = '-' || c = '?' || c = ':') && endsWord cs) ||
      "---".toList.isPrefixOf (c :: cs) || "...".toList.isPrefixOf (c :: cs)

/-- Whether the text holds a value indicator or the beginning of a comment. -/
def holdsIndicator : List Char → Bool
  | a :: b :: rest =>
    (b = ':' && endsWord rest) || (endsWord [a] && b = '#') || holdsIndicator (b :: rest)
  | _ => false

/-- Whether the text, taken as a plain scalar, is the same text again. -/
def isPlainSafe (cs : List Char) : Bool :=
  !(opensLikeIndicator cs || holdsIndicator cs || cs.head? == some ' ' ||
    cs.getLast? == some ' ' || cs.any isBreak)

/-- The style in which a text is written. -/
def Style.ofText (text : String) : Style :=
  let cs := text.toList
  if cs.any isSpecial then .doubleQuoted
  else if cs.contains '\n' then
    if cs.getLast? == some ' ' || hasSpaceBeforeBreak cs then .doubleQuoted else .literal
  else if hasSpaceBeforeBreak cs || hasSpaceAfterBreak cs then .doubleQuoted
  else if hasMeaning text || !isPlainSafe cs then .singleQuoted
  else .plain

/-- A scalar in the style that its text needs. -/
def Node.ofText (text : String) : Node := .scalar (.ofText text) none text

mutual
/-- The node that a tree is written as. -/
def Node.ofTree : Tree → Node
  | .text value => .ofText value
  | .texts values => .sequence none (values.map .ofText)
  | .map entries => .mapping none (Node.ofEntries entries)

/-- The entries that the entries of a tree are written as. -/
def Node.ofEntries : List (String × Tree) → List (Node × Node)
  | [] => []
  | (name, value) :: rest => (.ofText name, Node.ofTree value) :: Node.ofEntries rest
end

end ApiModels.Yaml
