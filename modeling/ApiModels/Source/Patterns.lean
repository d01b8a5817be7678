import ApiModels.Source.Types

/-!
# Patterns

The rules for patterns. Of a pattern it is only known whether it is a pair of dots or a range
without a bound, which may not stand everywhere.
-/

namespace ApiModels.Source

open Parse

/-- Whether a path without arguments before a macro's mark: neither has the path arguments nor does
the mark belong to an inequality. -/
def WrittenPath.callsMacro (p : WrittenPath) (ts : List Token) : Bool :=
  p.root != .qualified && !p.hasArguments && Token.isMark "!" ts && !Token.isMark "!=" ts

/-- A number from a tuple, without suffix and of at most 32 bits. -/
def isIndex : Literal → Bool
  | .integer digits hasSuffix =>
    !hasSuffix && digits.toNat?.any (· < Nat.pow 2 32)
  | _ => false

/-- The name of a field, or its number; says whether it is a name. -/
def member : Parse Bool := do
  if ← next Token.isIdentifier then
    let _ ← identifier
    return true
  require (isIndex (← literal))
  return false

/-- The dots of a range; says whether it has an upper bound. -/
def rangeMark (allowObsolete : Bool) : Parse Bool := do
  if ← mark? "..=" then return true
  if ← atMark "..." then
    require allowObsolete
    mark "..."
    return true
  mark ".."
  return false

variable (g : Grammar)

/-- A block of its own behind `const`. -/
def constantBlock : Parse Unit := do
  word "const"
  inside .brace (blockContent g)

/-- Whether a range ends before its upper bound. -/
def endsRange (ts : List Token) : Bool :=
  ts.isEmpty || Token.isMark "|" ts || Token.isMark "=" ts ||
    (Token.isMark ":" ts && !Token.isMark "::" ts) || Token.isMark "," ts || Token.isMark ";" ts ||
    Token.isWord "if" ts

/-- The bound of a range, if there is one. -/
def rangeBound? : Parse Bool := do
  if ← next endsRange then return false
  if ← next Token.isLiteral then
    let _ ← literal
  else if (← next isPathName) || (← atMark "::") || (← atMark "<") then
    let _ ← qualifiedPath g true
  else constantBlock g
  return true

/-- What follows the lower bound of a range. -/
def rangeRest : Parse Pattern := do
  let isClosed ← rangeMark true
  let hasEnd ← rangeBound? g
  require (hasEnd || !isClosed)
  return if hasEnd then .other else .openRange

/-- Patterns with bars between them; a bar may stand before the first. -/
def alternatives : Parse Pattern := do
  let bar : Parse Bool := next fun ts =>
    Token.isMark "|" ts && !Token.isMark "||" ts && !Token.isMark "|=" ts
  let isLed ← mark? "|"
  let first ← g .pattern
  let rest ← many do
    if ← bar then
      drop 1
      return some (← g .pattern)
    else return none
  return if isLed || !rest.isEmpty then .other else first

/-- A field in the pattern of a structure. -/
def fieldPattern : Parse Unit := do
  let isBoxed ← word? "box"
  let isReference ← word? "ref"
  let isMutable ← word? "mut"
  if isBoxed || isReference || isMutable then
    let _ ← identifier
  else
    let isName ← member
    if !isName || (← atMark ":") then
      mark ":"
      let _ ← alternatives g

/-- The fields in the pattern of a structure, up to a pair of dots. -/
def fieldPatterns : Parse Unit :=
  loop do
    if ← atEnd then return false
    let _ ← outerAttributes g
    if ← mark? ".." then return false
    fieldPattern g
    if ← atEnd then return false
    mark ","
    return true

/-- A pattern that begins with a path. -/
def pathPattern : Parse Pattern := do
  let p ← qualifiedPath g true
  if p.callsMacro (← ahead) then
    drop 1
    let _ ← anyGroup
  else if ← atGroup .brace then inside .brace (fieldPatterns g)
  else if ← atGroup .parenthesis then
    let _ ← inside .parenthesis (commaList (alternatives g))
  else if ← atMark ".." then return ← rangeRest g
  return .other

/-- The elements of a slice; an open range needs parentheses. -/
def slicePattern : Parse Unit := do
  let _ ← commaList do require ((← alternatives g) != .openRange)

/-- A range without a lower bound, or dots alone. -/
def dotsPattern : Parse Pattern := do
  let isClosed ← rangeMark false
  if ← rangeBound? g then return .openRange
  require (!isClosed)
  return .rest

/-- Whether a path stands here, rather than a name to bind. -/
def opensPathPattern (ts : List Token) : Bool :=
  let second := ts.drop 1
  (Token.isIdentifier ts &&
    (Token.isMark "::" second || Token.isMark "!" second || Token.isGroup .brace second ||
      Token.isGroup .parenthesis second || Token.isMark ".." second)) ||
    (Token.isWord "self" ts && Token.isMark "::" second) || Token.isMark "::" ts ||
    Token.isMark "<" ts || ["Self", "super", "crate"].any (Token.isWord · ts)

/-- A name to bind, and what it has to match. -/
def namePattern : Parse Unit := do
  let _ ← word? "ref"
  let _ ← word? "mut"
  if !(← word? "self") then
    let _ ← identifier
  if ← mark? "@" then
    let _ ← g .pattern

/-- A pattern without alternatives. -/
def patternRule : Parse Pattern := do
  let ts ← ahead
  if opensPathPattern ts then pathPattern g
  else if ← word? "_" then return .other
  else if ← word? "box" then
    let _ ← g .pattern
    return .other
  else if Token.isMark "-" ts || Token.isLiteral ts || Token.isWord "const" ts then
    if !(← rangeBound? g) then failure
    if ← atMark ".." then rangeRest g else return .other
  else if Token.isIdentifier ts || ["ref", "mut", "self"].any (Token.isWord · ts) then
    namePattern g
    return .other
  else if ← mark? "&" then
    let _ ← word? "mut"
    let _ ← g .pattern
    return .other
  else if Token.isGroup .parenthesis ts then
    let _ ← inside .parenthesis (commaList (alternatives g))
    return .other
  else if Token.isGroup .bracket ts then
    inside .bracket (slicePattern g)
    return .other
  else dotsPattern g

end ApiModels.Source
