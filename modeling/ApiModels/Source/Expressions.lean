import ApiModels.Source.Operators

/-!
# Operands

Operands are literals, paths, calls, groups, blocks and control flow, with operators before them and
suffixes behind them.
-/

namespace ApiModels.Source

open Parse

/-- Whether an expression may begin here. -/
def opensExpression (ts : List Token) : Bool :=
  let isMarkBut (text : String) (others : List String) : Bool :=
    Token.isMark text ts && !others.any (Token.isMark · ts)
  (Token.isAnyWord ts && !Token.isWord "as" ts) || Token.isAnyGroup ts || Token.isLiteral ts ||
    isMarkBut "!" ["!="] || isMarkBut "-" ["-=", "->"] || isMarkBut "*" ["*="] ||
    isMarkBut "|" ["|="] || isMarkBut "&" ["&="] || Token.isMark ".." ts ||
    isMarkBut "<" ["<=", "<<="] || Token.isMark "::" ts || Token.isLifetime ts ||
    Token.isMark "#" ts

/-- Whether `for` opens the parameters of a closure, rather than a loop. -/
def opensBinder (ts : List Token) : Bool := Token.isWord "for" ts && opensGenerics (ts.drop 1)

/-- Whether a closure comes next. -/
def opensClosure (ts : List Token) : Bool :=
  let second := ts.drop 1
  Token.isMark "|" ts || Token.isWord "move" ts || opensBinder ts ||
    (Token.isWord "const" ts && !Token.isGroup .brace second) || Token.isWord "static" ts ||
    (Token.isWord "async" ts && (Token.isMark "|" second || Token.isWord "move" second))

/-- Whether an expression comes next that needs no semicolon as a statement. -/
def opensBlock (ts : List Token) : Bool :=
  let isBraced := Token.isGroup .brace (ts.drop 1)
  ["if", "while", "loop", "match", "unsafe"].any (Token.isWord · ts) ||
    (Token.isWord "for" ts && !opensBinder ts) || (Token.isWord "try" ts && isBraced) ||
    (Token.isWord "const" ts && isBraced) || Token.isGroup .brace ts || Token.isLifetime ts

/-- Whether a written number is a chain of indices. -/
def isIndexChain (written : String) : Bool :=
  let parts := written.splitOn "."
  let parts := if written.endsWith "." then parts.dropLast else parts
  parts.all fun part =>
    match number? part.toList with
    | some (value, []) => isIndex value
    | _ => false

variable (g : Grammar)

/-- A block without attributes of its own. -/
def block : Parse Unit := inside .brace (g .statements)

/-- A block that may have attributes of its own. -/
def attributedBlock : Parse Unit := inside .brace (blockContent g)

/-- Expressions with commas between them, in brackets. -/
def expressions (delimiter : Delimiter) : Parse Unit := do
  let _ ← inside delimiter (commaList (g (.expression true)))

/-! ## Suffixes -/

/-- What follows a dot: an index, `await`, a field or a call of a method. -/
def dotSuffix : Parse Unit := do
  match ← ahead with
  | .literal (.decimal _ written) :: _ =>
    drop 1
    require (isIndexChain written)
    if !written.endsWith "." then return
  | _ => pure ()
  if ← word? "await" then return
  let isName ← member
  let hasArguments := isName && (← atMark "::")
  if hasArguments then
    let _ ← angleArguments g
  if hasArguments || (isName && (← atGroup .parenthesis)) then expressions g .parenthesis

/-- Takes a suffix, if one comes next. A range takes no dot and no question mark. -/
def suffix? (ofRange : Bool) : Parse Bool := do
  let ts ← ahead
  if Token.isGroup .parenthesis ts then
    expressions g .parenthesis
    return true
  if isDot ts && !ofRange then
    mark "."
    dotSuffix g
    return true
  if Token.isGroup .bracket ts then
    inside .bracket do
      let _ ← g (.expression true)
    return true
  if ofRange then return false
  mark? "?"

/-- The suffixes of an operand. -/
def suffixes (e : Expression) : Parse Expression := do
  if !(← suffix? g (e == .range)) then return e
  loop (suffix? g false)
  return .other

/-! ## Paths, structures and closures -/

/-- The fields of a structure, and the value that gives the others. -/
def structureFields : Parse Unit :=
  loop do
    if ← atEnd then return false
    if ← mark? ".." then
      if !(← atEnd) then
        let _ ← g (.expression true)
      return false
    let _ ← outerAttributes g
    let isName ← member
    if !isName || (← atMark ":") then
      mark ":"
      let _ ← g (.expression true)
    if ← atEnd then return false
    mark ","
    return true

/-- An operand that begins with a path: the path, a macro or a structure. -/
def pathOperand (structures : Bool) : Parse Expression := do
  let p ← qualifiedPath g true
  if p.callsMacro (← ahead) then
    drop 1
    return .macroCall ((← anyGroup) == .brace)
  if structures && (← atGroup .brace) then inside .brace (structureFields g)
  return .other

/-- A closure. -/
def closure (structures : Bool) : Parse Unit := do
  let _ ← binder? g
  let _ ← word? "const"
  let _ ← word? "static"
  let _ ← word? "async"
  let _ ← word? "move"
  mark "|"
  let _ ← separatedUntil (atMark "|") (mark ",") do
    let _ ← outerAttributes g
    let _ ← g .pattern
    if ← mark? ":" then
      let _ ← g (.type true)
  mark "|"
  if ← mark? "->" then
    let _ ← g (.type true)
    block g
  else
    let _ ← g (.expression structures)

/-! ## Control flow -/

/-- Choices between blocks, behind the first `if`. -/
def choice : Parse Unit := do
  let branch : Parse Unit := do
    let _ ← g (.expression false)
    block g
  branch
  loop do
    if !(← word? "else") then return false
    if ← word? "if" then
      branch
      return true
    block g
    return false

/-- The values and blocks that a loop goes through, behind `for`. -/
def iteration : Parse Unit := do
  let _ ← alternatives g
  word "in"
  let _ ← g (.expression false)
  attributedBlock g

/-- A condition and the block that is run while it holds, behind `while`. -/
def conditional : Parse Unit := do
  let _ ← g (.expression false)
  attributedBlock g

/-- An expression that ends as early as a statement may. -/
def earlyExpression : Parse Expression := do
  let _ ← outerAttributes g
  if ← next opensBlock then
    let e ← g (.atom true)
    if (← next isDot) || (← atMark "?") then
      g (.operators (← suffixes g e) true Precedence.lowest)
    else return e
  else g (.operators (← g (.operand true)) true Precedence.lowest)

/-- An arm of a match. -/
def arm : Parse Unit := do
  let _ ← outerAttributes g
  let _ ← alternatives g
  if ← word? "if" then
    let _ ← g (.expression true)
  mark "=>"
  let body ← earlyExpression g
  if body == .block || (← atEnd) then
    let _ ← mark? ","
  else mark ","

/-- A value and the arms that it is matched with, behind `match`. -/
def selection : Parse Unit := do
  let _ ← g (.expression false)
  inside .brace do
    let _ ← innerAttributes g
    let _ ← untilEnd (arm g)

/-- A loop of any kind, if one comes next. -/
def loop? : Parse Bool := do
  if ← word? "while" then
    conditional g
    return true
  if ← word? "for" then
    iteration g
    return true
  if ← word? "loop" then
    attributedBlock g
    return true
  return false

/-- A loop or block behind its label. -/
def labelled : Parse Unit := do
  let _ ← lifetime
  mark ":"
  if !(← loop? g) then attributedBlock g

/-- An expression, if one may begin here. -/
def value? : Parse Unit := do
  if ← next opensExpression then
    let _ ← g (.expression true)

/-- The way out of a loop, behind `break`. Where no structure may stand, the value does not begin
with a brace, but it may hold structures. -/
def leaving (structures : Bool) : Parse Unit := do
  if ← next Token.isLifetime then
    require (!(← second (Token.isMark ":")))
    let _ ← lifetime
  if (← next opensExpression) && (structures || !(← atGroup .brace)) then
    let _ ← g (.expression true)

/-- The elements of an array, or one element and how often it is repeated. -/
def elements : Parse Unit := do
  if ← atEnd then return
  let _ ← g (.expression true)
  if ← mark? ";" then
    let _ ← g (.expression true)
  else if !(← atEnd) then
    mark ","
    let _ ← commaList (g (.expression true))

/-! ## Operands -/

/-- What a word stands for at the front of an operand that is neither a path nor a closure. -/
def wordOperand (structures : Bool) : Parse Expression := do
  if ← loop? g then return .block
  match ← ahead with
  | .word text false :: _ =>
    drop 1
    match text with
    | "async" =>
      let _ ← word? "move"
      block g
      return .other
    | "try" =>
      block g
      return .block
    | "if" =>
      choice g
      return .block
    | "match" =>
      selection g
      return .block
    | "unsafe" | "const" =>
      attributedBlock g
      return .block
    | "let" =>
      let _ ← alternatives g
      mark "="
      let _ ← g (.operators (← g (.operand structures)) structures Precedence.compare)
      return .other
    | "break" =>
      leaving g structures
      return .other
    | "continue" =>
      if ← next Token.isLifetime then
        let _ ← lifetime
      return .other
    | "return" | "yield" =>
      value? g
      return .other
    | "become" =>
      let _ ← g (.expression true)
      return .other
    | "_" => return .other
    | _ => failure
  | _ => failure

/-- Whether a path opens an operand. -/
def opensPath (ts : List Token) : Bool :=
  let second := ts.drop 1
  isPathName ts || Token.isMark "::" ts || Token.isMark "<" ts ||
    (Token.isWord "try" ts && (Token.isMark "!" second || Token.isMark "::" second))

/-- Whether a block that runs by itself comes next. -/
def opensTask (ts : List Token) : Bool :=
  Token.isWord "async" ts && (Token.isGroup .brace (ts.drop 1) ||
    (Token.isWord "move" (ts.drop 1) && Token.isGroup .brace (ts.drop 2)))

/-- An operand without operators and suffixes. -/
def atomRule (structures : Bool) : Parse Expression := do
  let ts ← ahead
  if Token.isLiteral ts then return .literal (← literal)
  else if opensTask ts then wordOperand g structures
  else if opensClosure ts then
    closure g structures
    return .other
  else if opensBuiltin ts then
    builtin
    return .other
  else if opensPath ts then pathOperand g structures
  else if Token.isGroup .parenthesis ts then
    expressions g .parenthesis
    return .other
  else if Token.isGroup .bracket ts then
    inside .bracket (elements g)
    return .other
  else if Token.isGroup .brace ts then
    attributedBlock g
    return .block
  else if Token.isMark ".." ts then rangeFrom g structures
  else if Token.isLifetime ts then
    labelled g
    return .block
  else wordOperand g structures

/-- An operand with the operators before it and its suffixes. -/
def operandRule (structures : Bool) : Parse Expression := do
  let attributes ← outerAttributes g
  if ← mark? "&" then
    let isAddress := (← atWord "raw") && ((← second (Token.isWord "mut")) || (← second (Token.isWord "const")))
    if isAddress then drop 2
    else
      let _ ← word? "mut"
    let _ ← g (.operand structures)
    return .other
  if ["*", "!", "-"].any (Token.isMark · (← ahead)) then
    drop 1
    let _ ← g (.operand structures)
    return .other
  let e ← suffixes g (← g (.atom structures))
  require (attributes.isEmpty || e != .range)
  return e

end ApiModels.Source
