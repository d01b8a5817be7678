import ApiModels.Source.Parse

/-!
# Attributes

An attribute has a path and nothing more, a value, or a list in brackets. Lists are read as entries
with commas between them, as far as they have that form.
-/

namespace ApiModels.Source

open Parse

/-- Whether a name of a path without arguments comes next. -/
def isPathName (ts : List Token) : Bool :=
  Token.isIdentifier ts || ["super", "self", "Self", "crate"].any (Token.isWord · ts)

/-- A name of a path without arguments. -/
def pathName : Parse Identifier := do
  require (← next isPathName)
  anyWord

/-- A path without arguments. -/
def plainPath : Parse (List Identifier) := do
  let _ ← mark? "::"
  let first ← pathName
  let rest ← many do
    if ← mark? "::" then return some (← pathName) else return none
  return first :: rest

/-- The path of an entry; all its names may be keywords. -/
def entryPath : Parse (List Identifier) := do
  let _ ← mark? "::"
  let first ← anyWord
  let rest ← many do
    if ← mark? "::" then return some (← anyWord) else return none
  return first :: rest

/-- The value that an expression gives. -/
def Expression.literal? : Expression → Option Literal
  | .literal value => some value
  | _ => none

variable (g : Grammar)

/-- An entry of a list. -/
def entry : Parse Entry := do
  let path ← entryPath
  if ← mark? "=" then
    let value ← g (.expression true)
    return ⟨path, .value value.literal?⟩
  if ← atGroup .parenthesis then
    inside .parenthesis (g .entries)
    return ⟨path, .nested⟩
  return ⟨path, .flag⟩

/-- The comma behind an entry; says whether another entry has to follow. -/
def entryEnd : Parse Bool := do
  if ← atEnd then return false
  mark ","
  return !(← atEnd)

/-- The entries of a nested list: at least one, and nothing else. -/
def entries : Parse Unit :=
  loop do
    let _ ← entry g
    entryEnd

/-- The entries of a list up to the first thing that is none. Every entry takes a token. -/
def entriesFrom : Nat → Remaining → List Entry
  | 0, _ => []
  | fuel + 1, s =>
    match (entry g).run s with
    | none => []
    | some (e, s) =>
      e :: match entryEnd.run s with
        | some (true, s) => entriesFrom fuel s
        | _ => []

/-- What stands between the brackets of an attribute. -/
def attributeContent : Parse Attribute := do
  let isAbsolute ← atMark "::"
  let path ← if ← atWord "unsafe" then (fun name => [name]) <$> anyWord else plainPath
  match ← ahead with
  | .group _ content :: _ =>
    drop 1
    return ⟨path, isAbsolute, .list (entriesFrom g (content.length + 1) { tokens := content })⟩
  | _ =>
    if !(← mark? "=") then return ⟨path, isAbsolute, .flag⟩
    let ts ← ahead
    match Token.literal? ts with
    | some (value, n) =>
      if ts.length = n then
        drop n
        return ⟨path, isAbsolute, .value (some value)⟩
      return ⟨path, isAbsolute, .value (← g (.expression true)).literal?⟩
    | none =>
      require (!(Token.isMark "#" ts && Token.isGroup .bracket (ts.drop 1)))
      return ⟨path, isAbsolute, .value (← g (.expression true)).literal?⟩

/-- An attribute of what follows it. -/
def outerAttribute : Parse Attribute := do
  mark "#"
  inside .bracket (attributeContent g)

/-- The attributes of what follows them. -/
def outerAttributes : Parse (List Attribute) :=
  many do
    if ← atMark "#" then return some (← outerAttribute g) else return none

/-- The attributes of what they stand in. -/
def innerAttributes : Parse (List Attribute) :=
  many do
    if (← atMark "#") && (← second (Token.isMark "!")) then
      drop 2
      return some (← inside .bracket (attributeContent g))
    else return none

end ApiModels.Source
