import ApiModels.Source.Expressions

/-!
# Statements

A block holds bindings, items and expressions. An expression needs a semicolon unless it ends the
block or ends in a block itself.
-/

namespace ApiModels.Source

open Parse

/-- Whether an item opens a statement. -/
def opensItem (ts : List Token) : Bool :=
  let second := ts.drop 1
  let third := ts.drop 2
  let opensCode (ts : List Token) : Bool := ["unsafe", "extern", "fn"].any (Token.isWord · ts)
  ["pub", "extern", "use", "fn", "mod", "type", "struct", "enum", "trait", "impl", "macro"].any
      (Token.isWord · ts) ||
    (Token.isWord "crate" ts && !Token.isMark "::" second) ||
    (Token.isWord "static" ts && (Token.isWord "mut" second || Token.isIdentifier second)) ||
    (Token.isWord "const" ts &&
      !(Token.isGroup .brace second || Token.isWord "static" second || Token.isWord "move" second ||
        Token.isMark "|" second || (Token.isWord "async" second && !opensCode third))) ||
    (Token.isWord "unsafe" ts && !Token.isGroup .brace second) ||
    (Token.isWord "async" ts && opensCode second) ||
    (Token.isWord "union" ts && Token.isIdentifier second) ||
    (Token.isWord "auto" ts && Token.isWord "trait" second) ||
    (Token.isWord "default" ts && (Token.isWord "unsafe" second || Token.isWord "impl" second))

/-- What follows the path of a macro at the front, its mark included. -/
def behindMacroPath? (ts : List Token) : Option (List Token) := do
  let (_, rest) ← plainPath.run { tokens := ts }
  if Token.isMark "!" rest.tokens then some rest.tokens else none

/-- Whether a macro is called whose arguments stand in braces and end the statement. -/
def endsWithMacro (ts : List Token) : Bool :=
  Token.isGroup .brace (ts.drop 1) && !(isDot (ts.drop 2) || Token.isMark "?" (ts.drop 2))

/-- Whether a macro is called with a name before its arguments. -/
def namesMacro (ts : List Token) : Bool :=
  Token.isIdentifier (ts.drop 1) || Token.isWord "try" (ts.drop 1)

/-- Whether the last of the tokens taken since `before` is a group in braces. -/
def endsInBrace (before after : List Token) : Bool :=
  Token.isGroup .brace (before.drop (before.length - after.length - 1))

variable (g : Grammar)

/-- A binding behind `let`. -/
def binding : Parse Unit := do
  let _ ← g .pattern
  if ← mark? ":" then
    let _ ← g (.type true)
  if ← mark? "=" then
    let before ← ahead
    let _ ← g (.expression true)
    if !endsInBrace before (← ahead) then
      if ← word? "else" then block g
  mark ";"

/-- A statement; says whether it needs a semicolon that it does not have. -/
def statement : Parse Bool := do
  let _ ← outerAttributes g
  let ts ← ahead
  let behind := (behindMacroPath? ts).getD []
  if endsWithMacro behind then
    drop (ts.length - behind.length + 2)
    let _ ← mark? ";"
    return false
  if ← word? "let" then
    binding g
    return false
  if opensItem ts || namesMacro behind then
    let _ ← g .item
    return false
  let e ← earlyExpression g
  if ← mark? ";" then return false
  return !(e == .block || e == .macroCall true)

/-- The statements of a block. -/
def statementsRule : Parse Unit :=
  loop do
    loop (mark? ";")
    if ← atEnd then return false
    let needsSemicolon ← statement g
    if ← atEnd then return false
    require (!needsSemicolon)
    return true

end ApiModels.Source
