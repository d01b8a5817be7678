import ApiModels.Source.Attributes

/-!
# Types, paths, bounds and generic parameters

The rules for written types and for what they are made of.
-/

namespace ApiModels.Source

open Parse

/-- A path as it is written. -/
structure WrittenPath where
  root : PathRoot
  segments : List Segment
  /-- Whether some segment has arguments, be they none. -/
  hasArguments : Bool

/-- Whether the last segment has no argument. -/
def WrittenPath.endsBare (p : WrittenPath) : Bool :=
  (p.segments.getLast?.map fun s => s.arguments.isEmpty).getD true

/-- The reach of a declaration. -/
inductive Visibility where
  | inherited
  | full
  | restricted
deriving DecidableEq, Repr

/-- How far a declaration reaches. -/
def visibility : Parse Visibility := do
  if !(← word? "pub") then return .inherited
  match ← ahead with
  | .group .parenthesis content :: _ =>
    if ["crate", "self", "super"].any (Token.isWord · content) then
      if content.length = 1 then
        drop 1
        return .restricted
      return .full
    if Token.isWord "in" content then
      inside .parenthesis do
        word "in"
        let _ ← plainPath
      return .restricted
    return .full
  | _ => return .full

variable (g : Grammar)

/-- What stands in a block with attributes of its own. -/
def blockContent : Parse Unit := do
  let _ ← innerAttributes g
  g .statements

/-- A constant as an argument: a literal, a name or a block. -/
def constantArgument : Parse Unit := do
  if ← next Token.isLiteral then
    let _ ← literal
  else if ← next Token.isIdentifier then
    let _ ← identifier
  else
    inside .brace (blockContent g)

/-! ## Paths -/

/-- The type behind an arrow, if there is one. -/
def returnType (plus : Bool) : Parse (Option Ty) := do
  if ← mark? "->" then return some (← g (.type plus)) else return none

/-- Arguments in parentheses and the type of the result. -/
def parenthesizedArguments : Parse Unit := do
  let _ ← inside .parenthesis (commaList (g (.type true)))
  let _ ← returnType g false

/-- Arguments in angle brackets, behind a pair of colons if one comes next. -/
def angleArguments : Parse (List Argument) := do
  let _ ← mark? "::"
  mark "<"
  let arguments ← separatedUntil (atMark ">") (mark ",") (g .argument)
  mark ">"
  return arguments

/-- A segment of a path, and whether it has arguments. In an expression arguments stand behind a
pair of colons. -/
def segment (inExpression : Bool) : Parse (Segment × Bool) := do
  if ["super", "self", "crate", "try"].any (Token.isWord · (← ahead)) then
    return (⟨← anyWord, []⟩, false)
  let name ← if ← atWord "Self" then anyWord else identifier
  let opensHere := (← atMark "<") && !(← atMark "<=") && !(← atMark "<<=") && !inExpression
  if opensHere || ((← atMark "::") && (← third (Token.isMark "<"))) then
    return (⟨name, ← angleArguments g⟩, true)
  return (⟨name, []⟩, false)

/-- A path that does not begin with a type in angle brackets. -/
def path (inExpression : Bool) : Parse WrittenPath := do
  let isAbsolute ← mark? "::"
  let first ← segment g inExpression
  let rest ← many do
    if (← atMark "::") && !(← third (Token.isGroup .parenthesis)) then
      mark "::"
      return some (← segment g inExpression)
    else return none
  let all := first :: rest
  return {
    root := if isAbsolute then .absolute else .relative
    segments := all.map (·.1)
    hasArguments := all.any (·.2) }

/-- A path, which may begin with a type in angle brackets. -/
def qualifiedPath (inExpression : Bool) : Parse WrittenPath := do
  if !(← mark? "<") then path g inExpression
  else
    let _ ← g (.type true)
    let trait ←
      if ← word? "as" then WrittenPath.segments <$> path g false else pure []
    mark ">"
    mark "::"
    let first ← segment g inExpression
    let rest ← many do
      if ← mark? "::" then return some (← segment g inExpression) else return none
    return {
      root := .qualified
      segments := trait ++ (first :: rest).map (·.1)
      hasArguments := true }

/-! ## Bounds and generic parameters -/

/-- Parameters behind `for`, if there are any. -/
def binder? : Parse Bool := do
  if !(← word? "for") then return false
  mark "<"
  let _ ← separatedUntil (atMark ">") (mark ",") (g (.parameter false))
  mark ">"
  return true

/-- A trait as a bound. -/
def traitBound (allowConst : Bool) : Parse Unit := do
  let hasBinder ← binder? g
  if ← atGroup .bracket then
    inside .bracket (word "const")
    require allowConst
  else if ← word? "const" then
    require allowConst
  let isMaybe ← mark? "?"
  let hasBinder ← if isMaybe && !hasBinder then binder? g else pure hasBinder
  let path ← path g false
  if path.endsBare &&
      ((← atGroup .parenthesis) || ((← atMark "::") && (← third (Token.isGroup .parenthesis)))) then
    let _ ← mark? "::"
    parenthesizedArguments g
  require (!(hasBinder && isMaybe))

/-- What a type may capture, behind `use`. -/
def captures : Parse Unit := do
  mark "<"
  let _ ← separatedUntil (atMark ">") (mark ",") do
    if ← next Token.isLifetime then
      let _ ← lifetime
    else
      require ((← next Token.isIdentifier) || (← atWord "Self"))
      let _ ← anyWord
  mark ">"

/-- A bound. -/
def boundRule (allowCapture allowConst : Bool) : Parse Bound := do
  if ← next Token.isLifetime then
    let _ ← lifetime
    return .lifetime
  if ← word? "use" then
    require allowCapture
    captures
    return .capture
  if ← atGroup .parenthesis then inside .parenthesis (traitBound g allowConst)
  else traitBound g allowConst
  return .trait

/-- A generic parameter. -/
def parameterRule (allowBlank : Bool) : Parse Unit := do
  let _ ← outerAttributes g
  if ← next Token.isLifetime then
    let _ ← lifetime
    if ← mark? ":" then
      let _ ← plusList (do return (← atMark ",") || (← atMark ">")) lifetime
  else if ← next Token.isIdentifier then
    let _ ← identifier
    if ← mark? ":" then
      let _ ← plusList (do return (← atMark ",") || (← atMark ">") || (← atMark "="))
        (g (.bound false true))
    if ← mark? "=" then
      let _ ← g (.type true)
  else if ← word? "const" then
    let _ ← identifier
    mark ":"
    let _ ← g (.type true)
    if ← mark? "=" then constantArgument g
  else
    require allowBlank
    word "_"

/-- An argument in angle brackets. -/
def argumentRule : Parse Argument := do
  if (← next Token.isLifetime) && !(← second (Token.isMark "+")) then
    return .lifetime (← lifetime)
  if (← next Token.isLiteral) || (← atGroup .brace) then
    constantArgument g
    return .constant
  let t ← g (.type true)
  match t with
  | .path .relative [_] =>
    if ← mark? "=" then
      if (← next Token.isLiteral) || (← atGroup .brace) then constantArgument g
      else
        let _ ← g (.type true)
      return .associated
    if ← mark? ":" then
      let _ ← plusList (do return (← atMark ",") || (← atMark ">")) (g (.bound false true))
      return .associated
    return .type t
  | _ => return .type t

/-- Generic parameters in angle brackets, if there are any; says whether there are some. -/
def generics : Parse Bool := do
  if !(← mark? "<") then return false
  let parameters ← separatedUntil (atMark ">") (mark ",") (g (.parameter true))
  mark ">"
  return !parameters.isEmpty

/-- Whether angle brackets hold generic parameters, rather than the type that a path begins with. -/
def opensGenerics (ts : List Token) : Bool :=
  let second := ts.drop 1
  let third := ts.drop 2
  Token.isMark "<" ts &&
    (Token.isMark ">" second || Token.isMark "#" second || Token.isWord "const" second ||
      ((Token.isLifetime second || Token.isIdentifier second) &&
        (Token.isMark ">" third || Token.isMark "," third || Token.isMark "=" third ||
          (Token.isMark ":" third && !Token.isMark "::" third))))

/-- Whether the conditions of a `where` end. -/
def endsConditions (ts : List Token) : Bool :=
  ts.isEmpty || Token.isGroup .brace ts || Token.isMark "," ts || Token.isMark ";" ts ||
    (Token.isMark ":" ts && !Token.isMark "::" ts) || Token.isMark "=" ts

/-- A condition on a lifetime or a type. -/
def condition : Parse Unit := do
  if (← next Token.isLifetime) && (← second (Token.isMark ":")) then
    drop 2
    let _ ← plusList (next fun ts => endsConditions ts || Token.isMark ":" ts) lifetime
  else
    let _ ← binder? g
    let _ ← g (.type true)
    mark ":"
    let _ ← plusList (next endsConditions) (g (.bound false true))

/-- The conditions behind `where`, if there are any. -/
def conditions : Parse Unit := do
  if ← word? "where" then
    require (!(← next opensGenerics))
    let _ ← many do
      if ← next endsConditions then return none
      condition g
      -- Without a comma the next round has to end.
      if !(← mark? ",") then require (← next endsConditions)
      return some ()

/-! ## Types -/

/-- Several bounds of which one is a trait. -/
def bounds (plus allowCapture allowConst : Bool) : Parse Unit := do
  let first ← g (.bound allowCapture allowConst)
  let rest ← many do
    if !plus then return none
    if !(← mark? "+") then return none
    let goesOn := (← next Token.isAnyWord) || (← atMark "::") || (← atMark "?") ||
      (← next Token.isLifetime) || (← atGroup .parenthesis) ||
      (allowConst && ((← atGroup .bracket) || (← atWord "const")))
    if goesOn then return some (← g (.bound allowCapture allowConst)) else return none
  require ((first :: rest).contains .trait)

/-- How a function is called from outside, if it says so. -/
def abi : Parse Unit := do
  if ← word? "extern" then
    match ← ahead with
    | .literal (.text _) :: _ => drop 1
    | _ => pure ()

/-- An argument of a function type: it may have a name, and the first may be the receiver. -/
def functionTypeArgument (isFirst : Bool) : Parse Unit := do
  let _ ← outerAttributes g
  let hasMutable := isFirst && (← atWord "mut") && (← second (Token.isWord "self"))
  if hasMutable then drop 1
  let isSelf := isFirst && (← atWord "self")
  let isNamed := ((← next Token.isIdentifier) || (← atWord "_") || isSelf) &&
    (← second (Token.isMark ":")) && !(← second (Token.isMark "::"))
  if isNamed then drop 2
  if hasMutable && !isNamed then word "self"
  else if isFirst && !(isNamed && isSelf) && (← atWord "mut") && (← second (Token.isWord "self")) then
    drop 2
  else
    let _ ← g (.type true)

/-- Further arguments of any number, and the comma behind them. -/
def variadic? : Parse Bool := do
  let isNamed := ((← next Token.isIdentifier) || (← atWord "_")) &&
    (← second (Token.isMark ":")) && (← third (Token.isMark "..."))
  if isNamed then drop 2
  if ← mark? "..." then
    let _ ← mark? ","
    return true
  return false

/-- The arguments of a function type. -/
def functionTypeArguments : Parse Unit := do
  if ← atEnd then return
  let _ ← outerAttributes g
  if ← variadic? then return
  functionTypeArgument g true
  loop do
    if ← atEnd then return false
    mark ","
    if ← atEnd then return false
    let _ ← outerAttributes g
    if ← variadic? then return false
    functionTypeArgument g false
    return true

/-- A function type. -/
def functionType : Parse Unit := do
  let _ ← word? "unsafe"
  abi
  word "fn"
  inside .parenthesis (functionTypeArguments g)
  let _ ← returnType g false

/-- What stands in parentheses that are a type or a part of one. -/
inductive Parenthesized where
  | done (t : Ty)
  /-- A bound that can do without its trait. -/
  | maybe
  | single (t : Ty)

/-- The content of parentheses that open a type. -/
def parenthesizedContent : Parse Parenthesized := do
  if ← atEnd then return .done (.tuple [])
  if ← next Token.isLifetime then
    bounds g true false false
    return .done (.parenthesized .other)
  if ← atMark "?" then
    traitBound g false
    return .maybe
  let first ← g (.type true)
  if ← mark? "," then
    return .done (.tuple (first :: (← commaList (g (.type true)))))
  return .single first

/-- Bounds behind plus signs; says whether there are some. -/
def moreBounds : Parse Bool := do
  let found ← many do
    if ← mark? "+" then return some (← g (.bound false false)) else return none
  return !found.isEmpty

/-- Whether a type is a path that does not begin with a type in angle brackets. -/
def Ty.isPlainPath : Ty → Bool
  | .path .relative _ => true
  | .path .absolute _ => true
  | _ => false

/-- Whether a type in parentheses may be the first of several bounds. -/
def Ty.isBound (t : Ty) : Bool :=
  match t with
  | .bound => true
  | t => t.isPlainPath

/-- Bounds behind the plus signs of a path, of which the last may stand alone; says whether there is
a plus sign. -/
def pathBounds : Parse Bool := do
  let isFollowed ← atMark "+"
  let _ ← many do
    if !(← mark? "+") then return none
    let goesOn := (← next Token.isAnyWord) || (← atMark "::") || (← atMark "?") ||
      (← next Token.isLifetime) || (← atGroup .parenthesis)
    if goesOn then return some (← g (.bound false false)) else return none
  return isFollowed

/-- Whether something built in comes next. -/
def opensBuiltin (ts : List Token) : Bool := Token.isWord "builtin" ts && Token.isMark "#" (ts.drop 1)

/-- A type or value that is built in: its name, and tokens in parentheses. -/
def builtin : Parse Unit := do
  drop 2
  let _ ← identifier
  require ((← anyGroup) == .parenthesis)

/-- A type that begins with a path. -/
def pathType (plus hasBinder : Bool) : Parse Ty := do
  let p ← qualifiedPath g false
  if p.root = .qualified then return .path p.root p.segments
  if (← atMark "!") && !(← atMark "!=") && !p.hasArguments then
    drop 1
    let _ ← anyGroup
    return .other
  if hasBinder || (plus && (← atMark "+")) then
    let isFollowed ← if plus then pathBounds g else pure false
    return if isFollowed then .other else .bound
  return .path p.root p.segments

/-- A type. With `plus` a type may be a trait with further bounds. -/
def typeRule (plus : Bool) : Parse Ty := do
  let hasBinder ← binder? g
  let ts ← ahead
  let isFunction := ["fn", "unsafe", "extern"].any (Token.isWord · ts)
  let isName := isPathName ts
  if hasBinder then require (isFunction || isName)
  if ← atGroup .parenthesis then
    match ← inside .parenthesis (parenthesizedContent g) with
    | .done t => return t
    | .maybe => return if ← moreBounds g then .other else .bound
    | .single t =>
      if plus && t.isBound then
        if ← moreBounds g then return .other
      return .parenthesized t
  if isFunction then
    functionType g
    return .other
  if opensBuiltin ts then
    builtin
    return .other
  if isName || (← atMark "::") || (← atMark "<") then pathType g plus hasBinder
  else if ← word? "dyn" then
    let _ ← mark? "*"
    bounds g plus false false
    return .other
  else if ← atGroup .bracket then
    inside .bracket do
      let element ← g (.type true)
      if ← mark? ";" then
        let _ ← g (.expression true)
        return .array element
      return .slice element
  else if ← mark? "*" then
    if !(← word? "const") then word "mut"
    let _ ← g (.type false)
    return .other
  else if ← mark? "&" then
    let name ← if ← next Token.isLifetime then some <$> lifetime else pure none
    let isMutable ← word? "mut"
    return .reference name isMutable (← g (.type false))
  else if ← mark? "!" then return .other
  else if ← word? "impl" then
    bounds g plus true true
    return .other
  else if ← word? "_" then return .other
  else
    require (← next Token.isLifetime)
    bounds g true false false
    return .other

end ApiModels.Source
