import ApiModels.Source.Token
import ApiModels.Text.Blank

/-!
# Source text as tokens

White space and comments separate tokens. Comments with a third slash or star, or an exclamation
mark, are documentation and become attributes. Brackets pair up.
-/

namespace ApiModels.Source

open ApiModels.Text

/-- White space between tokens: that of Unicode and the two direction marks. -/
def isGap (c : Char) : Bool := isBlank c || c.toNat = 0x200E || c.toNat = 0x200F

/-! ## Comments -/

/-- A line up to its end, which is not part of it, and the rest from the line feed on. -/
def spanLine : List Char → List Char × List Char
  | [] => ([], [])
  | '\n' :: cs => ([], '\n' :: cs)
  | '\r' :: '\n' :: cs => ([], '\n' :: cs)
  | c :: cs =>
    let (line, rest) := spanLine cs
    (c :: line, rest)

/-- The text of a block comment behind its opening mark, and what follows its closing mark; comments
nest. -/
def spanBlock? : Nat → List Char → Option (List Char × List Char)
  | depth, '/' :: '*' :: cs =>
    (spanBlock? (depth + 1) cs).map fun (text, rest) => ('/' :: '*' :: text, rest)
  | 0, '*' :: '/' :: cs => some ([], cs)
  | depth + 1, '*' :: '/' :: cs =>
    (spanBlock? depth cs).map fun (text, rest) => ('*' :: '/' :: text, rest)
  | depth, c :: cs => (spanBlock? depth cs).map fun (text, rest) => (c :: text, rest)
  | _, [] => none

/-- Whether every carriage return stands before a line feed. -/
def hasLoneReturn : List Char → Bool
  | [] => false
  | '\r' :: '\n' :: cs => hasLoneReturn cs
  | c :: cs => c = '\r' || hasLoneReturn cs

/-- A comment. -/
inductive Comment where
  | plain
  | doc (isInner : Bool) (text : List Char)

/-- The comment at the front, and what follows it. -/
def comment? : List Char → Option (Comment × List Char)
  | '/' :: '/' :: '!' :: cs => let (text, rest) := spanLine cs; some (.doc true text, rest)
  | '/' :: '/' :: '/' :: '/' :: cs => some (.plain, (spanLine cs).2)
  | '/' :: '/' :: '/' :: cs => let (text, rest) := spanLine cs; some (.doc false text, rest)
  | '/' :: '/' :: cs => some (.plain, (spanLine cs).2)
  | '/' :: '*' :: '*' :: '/' :: cs => some (.plain, cs)
  | '/' :: '*' :: '*' :: '*' :: cs => (spanBlock? 0 ('*' :: '*' :: cs)).map fun (_, rest) => (.plain, rest)
  | '/' :: '*' :: '*' :: cs => (spanBlock? 0 cs).map fun (text, rest) => (.doc false text, rest)
  | '/' :: '*' :: '!' :: cs => (spanBlock? 0 cs).map fun (text, rest) => (.doc true text, rest)
  | '/' :: '*' :: cs => (spanBlock? 0 cs).map fun (_, rest) => (.plain, rest)
  | _ => none

/-! ## Tokens -/

/-- The characters of marks. -/
def markChars : List Char :=
  ['~', '!', '@', '#', '$', '%', '^', '&', '*', '-', '=', '+', '|', ';', ':', ',', '<', '.', '>',
   '/', '?', '\'']

/-- The character of a mark at the front; the slash of a comment is none. -/
def markChar? : List Char → Option (Char × List Char)
  | '/' :: '/' :: _ => none
  | '/' :: '*' :: _ => none
  | c :: cs => if markChars.contains c then some (c, cs) else none
  | [] => none

/-- Words that cannot be raw. -/
def neverRaw : List String := ["_", "super", "self", "Self", "crate"]

/-- A word, possibly raw: its text, whether it is raw, and what follows it. -/
def spanWord? : List Char → Option (String × Bool × List Char)
  | 'r' :: '#' :: cs => do
    let (text, rest) ← identifier? cs
    let text := String.ofList text
    if neverRaw.contains text then none else return (text, true, rest)
  | cs => do
    let (text, rest) ← identifier? cs
    return (String.ofList text, false, rest)

/-- The beginnings of string literals: no word begins with one. -/
def literalOpenings : List String :=
  ["r\"", "r#\"", "r##", "b\"", "b'", "br\"", "br#", "c\"", "cr\"", "cr#"]

/-- A word that may stand here as a token. -/
def spanToken? (cs : List Char) : Option (String × Bool × List Char) :=
  if literalOpenings.any (·.toList.isPrefixOf cs) then none else spanWord? cs

/-- A lifetime behind its apostrophe. If the word there opens a literal, the apostrophe stands
alone. -/
def lifetimeToken? (cs : List Char) : Option (Token × List Char) := do
  let (_, isRaw, after) ← spanWord? cs
  if after.head? == some '\'' || (after.head? == some '#' && !isRaw) then none
  if (literal? cs).isSome then return (.mark '\'' true, cs)
  let (name, _, after) ← spanToken? cs
  return (.lifetime name, after)

/-- The mark or lifetime at the front. -/
def markToken? (cs : List Char) : Option (Token × List Char) := do
  let (c, rest) ← markChar? cs
  if c = '\'' then lifetimeToken? rest
  else return (.mark c (markChar? rest).isSome, rest)

/-- The word at the front. -/
def wordToken? (cs : List Char) : Option (Token × List Char) := do
  let (text, isRaw, rest) ← spanToken? cs
  return (.word text isRaw, rest)

/-- The token at the front that is no group. -/
def leaf? (cs : List Char) : Option (Token × List Char) :=
  match literal? cs with
  | some (value, rest) => some (.literal value, rest)
  | none =>
    match markToken? cs with
    | some result => some result
    | none => wordToken? cs

/-- The pair of brackets that a character opens. -/
def opens? (c : Char) : Option Delimiter :=
  if c = '(' then some .parenthesis else if c = '[' then some .bracket
  else if c = '\x7b' then some .brace else none

/-- The pair of brackets that a character closes. -/
def closes? (c : Char) : Option Delimiter :=
  if c = ')' then some .parenthesis else if c = ']' then some .bracket
  else if c = '\x7d' then some .brace else none

/-- What follows the comment in parentheses that is printed in place of a literal which cannot be
read. It stands for such a literal. -/
def unreadable? (cs : List Char) : Option (List Char) :=
  let written := "(/*ERROR*/)".toList
  if written.isPrefixOf cs then some (cs.drop written.length) else none

/-- Reads tokens to the end. `outer` holds the open brackets, the innermost first, each with the
tokens before it; `read` holds the tokens behind the innermost, the last first. Every round uses up
at least one character. -/
def lexFrom? : Nat → List (Delimiter × List Token) → List Token → List Char → Option (List Token)
  | 0, _, _, _ => none
  | _ + 1, outer, read, [] => if outer.isEmpty then some read.reverse else none
  | fuel + 1, outer, read, c :: cs =>
    if isGap c then lexFrom? fuel outer read cs
    else match comment? (c :: cs) with
      | some (.plain, rest) => lexFrom? fuel outer read rest
      | some (.doc isInner text, rest) =>
        if hasLoneReturn text then none
        else lexFrom? fuel outer ((docTokens isInner (String.ofList text)).reverse ++ read) rest
      | none =>
        match unreadable? (c :: cs) with
        | some rest => lexFrom? fuel outer (.literal .other :: read) rest
        | none =>
          match opens? c, closes? c, outer with
          | some delimiter, _, _ => lexFrom? fuel ((delimiter, read) :: outer) [] cs
          | none, some delimiter, (opened, before) :: outer =>
            if delimiter = opened then
              lexFrom? fuel outer (.group delimiter read.reverse :: before) cs
            else none
          | none, some _, [] => none
          | none, none, _ => do
            let (token, rest) ← leaf? (c :: cs)
            lexFrom? fuel outer (token :: read) rest

/-- The tokens of a text. -/
def lex? (cs : List Char) : Option (List Token) := lexFrom? (cs.length + 1) [] [] cs

end ApiModels.Source
