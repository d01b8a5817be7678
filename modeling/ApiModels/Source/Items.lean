import ApiModels.Source.Statements

/-!
# Items

The rules for items. Structures, enumerations, implementations and modules are kept, the others are
only checked.
-/

namespace ApiModels.Source

open Parse

/-- Drops the word `text` at the front. -/
def skipWord (text : String) (ts : List Token) : List Token :=
  if Token.isWord text ts then ts.drop 1 else ts

/-- Whether a function comes next. -/
def opensFunction (allowSafe : Bool) (ts : List Token) : Bool :=
  let ts := skipWord "async" (skipWord "const" ts)
  let ts := if allowSafe && Token.isWord "safe" ts then ts.drop 1 else skipWord "unsafe" ts
  let ts :=
    if Token.isWord "extern" ts then
      match ts.drop 1 with
      | .literal (.text _) :: rest => rest
      | rest => rest
    else ts
  Token.isWord "fn" ts

/-- Whether a macro may be called here. -/
def opensMacroPath (ts : List Token) : Bool :=
  Token.isIdentifier ts || ["self", "super", "crate"].any (Token.isWord · ts) || Token.isMark "::" ts

variable (g : Grammar)

/-! ## Functions -/

/-- A receiver, up to a type of its own. A path that begins with the same word is none. -/
def receiverName : Parse Receiver := do
  let isReference ← mark? "&"
  if isReference && (← next Token.isLifetime) then
    let _ ← lifetime
  let isMutable ← word? "mut"
  word "self"
  require (!(← atMark "::"))
  return if isReference then .reference isMutable else .value isMutable

/-- What follows the name of a receiver: a type of its own, unless it is a reference. -/
def receiverRest (r : Receiver) : Parse Receiver := do
  match r with
  | .value _ =>
    if ← mark? ":" then
      let _ ← g (.type true)
      return .typed
    return r
  | r => return r

/-- What stands between the parentheses of a function. -/
inductive FunctionArgument where
  | receiver (r : Receiver)
  | typed
  /-- Further arguments of any number. -/
  | variadic

/-- An argument of a function. -/
def functionArgument : Parse FunctionArgument := do
  let _ ← outerAttributes g
  if ← mark? "..." then return .variadic
  if let some r ← attempt receiverName then return .receiver (← receiverRest g r)
  if (← next Token.isIdentifier) && (← second (Token.isMark "<")) then
    let _ ← g (.type true)
    return .typed
  let _ ← g .pattern
  mark ":"
  if ← mark? "..." then return .variadic
  let _ ← g (.type true)
  return .typed

/-- The arguments of a function: how often it has a receiver first, and the number of others. -/
def functionArguments : Parse (Option Receiver × Nat) := do
  let arguments ← commaList (functionArgument g)
  let isVariadic : FunctionArgument → Bool
    | .variadic => true
    | _ => false
  require (!arguments.dropLast.any isVariadic)
  let named := arguments.filter fun a => !isVariadic a
  let isReceiver : FunctionArgument → Bool
    | .receiver _ => true
    | _ => false
  require (!(named.drop 1).any isReceiver)
  match named with
  | .receiver r :: rest => return (some r, rest.length)
  | _ => return (none, named.length)

/-- The head of a function. -/
def signature (allowSafe : Bool) : Parse Signature := do
  let _ ← word? "const"
  let _ ← word? "async"
  if !(← word? "unsafe") && allowSafe then
    let _ ← word? "safe"
  abi
  word "fn"
  let name ← identifier
  let isGeneric ← generics g
  let (receiver, arguments) ← inside .parenthesis (functionArguments g)
  let returns ← returnType g true
  conditions g
  return { name, isGeneric, receiver, arguments, returns }

/-- The body of a function, with the attributes in it. -/
def functionBody : Parse (List Attribute) :=
  inside .brace do
    let attributes ← innerAttributes g
    g .statements
    return attributes

/-! ## Definitions -/

/-- A name, or an underscore in its place. -/
def nameOrBlank : Parse Unit := do
  if !(← word? "_") then
    let _ ← identifier

/-- Bounds joined by plus signs, up to a place where `isDone` holds. -/
def boundsUntil (allowConst : Bool) (isDone : Parse Bool) : Parse Unit := do
  let _ ← separatedUntil isDone (mark "+") (g (.bound false allowConst))

/-- Where the conditions of a defined type stand. -/
inductive ConditionPlace where
  | beforeDefinition
  | behindDefinition
  | anywhere
deriving DecidableEq

/-- The definition of a name for a type, which may be left open, behind `type`. -/
def typeName (place : ConditionPlace) : Parse Unit := do
  let _ ← identifier
  let _ ← generics g
  if ← mark? ":" then
    boundsUntil g true do return (← atWord "where") || (← atMark "=") || (← atMark ";")
  let hasConditions ← atWord "where"
  if place != .behindDefinition then conditions g
  if ← mark? "=" then
    let _ ← g (.type true)
  if place == .behindDefinition || (place == .anywhere && !hasConditions) then conditions g
  mark ";"

/-- A constant behind `const`; its value may be left open. -/
def constant : Parse Unit := do
  nameOrBlank
  let _ ← generics g
  mark ":"
  let _ ← g (.type true)
  if ← mark? "=" then
    let _ ← g (.expression true)
  conditions g
  mark ";"

/-- A static value behind `static`; its type or its value may be left open. -/
def staticValue : Parse Unit := do
  let _ ← word? "mut"
  let _ ← identifier
  if !(← atMark "=") then
    mark ":"
    let _ ← g (.type true)
  if ← mark? "=" then
    let _ ← g (.expression true)
  mark ";"

/-- A call of a macro that stands for items. -/
def macroCall (allowName : Bool) : Parse Unit := do
  let _ ← plainPath
  mark "!"
  if allowName then
    if !(← word? "try") && (← next Token.isIdentifier) then
      let _ ← identifier
  if (← anyGroup) != .brace then mark ";"

/-! ## Structures and enumerations -/

/-- A field with a name. The type of a field without one may be a structure of its own. -/
def namedField : Parse NamedField := do
  let attributes ← outerAttributes g
  let _ ← visibility
  let isBlank ← atWord "_"
  let name ← if isBlank then anyWord else identifier
  mark ":"
  let isStructure := (← atWord "struct") || ((← atWord "union") && (← second (Token.isGroup .brace)))
  if isBlank && isStructure then
    drop 1
    let _ ← inside .brace (commaList (g .field))
    return { attributes, name, type := .other }
  return { attributes, name, type := ← g (.type true) }

/-- Fields with names, in braces. -/
def namedFields : Parse (List NamedField) := inside .brace (commaList (g .field))

/-- Fields without names, in parentheses. -/
def unnamedFields : Parse Unit := do
  let _ ← inside .parenthesis <| commaList do
    let _ ← outerAttributes g
    let _ ← visibility
    g (.type true)

/-- A structure behind `struct`. -/
def structureRule (attributes : List Attribute) : Parse Structure := do
  let name ← identifier
  let _ ← generics g
  if ← atGroup .parenthesis then
    unnamedFields g
    conditions g
    mark ";"
    return { attributes, name, fields := [] }
  conditions g
  if ← mark? ";" then return { attributes, name, fields := [] }
  return { attributes, name, fields := ← namedFields g }

/-- A variant of an enumeration. -/
def variant : Parse Variant := do
  let attributes ← outerAttributes g
  let _ ← visibility
  let name ← identifier
  if ← atGroup .brace then
    let _ ← namedFields g
  else if ← atGroup .parenthesis then unnamedFields g
  if ← mark? "=" then
    let _ ← g (.expression true)
  return { attributes, name }

/-- An enumeration behind `enum`. -/
def enumerationRule (attributes : List Attribute) : Parse Enumeration := do
  let name ← identifier
  let _ ← generics g
  conditions g
  return { attributes, name, variants := ← inside .brace (commaList (variant g)) }

/-- A union behind `union`. -/
def unionRule : Parse Unit := do
  let _ ← identifier
  let _ ← generics g
  conditions g
  let _ ← namedFields g

/-! ## Traits and foreign items -/

/-- An item of a trait. -/
def traitItem : Parse Unit := do
  let _ ← outerAttributes g
  let visibility ← visibility
  let isDefault ← word? "default"
  if ← next (opensFunction false) then
    let _ ← signature g false
    if !(← mark? ";") then
      let _ ← functionBody g
  else if ← word? "const" then constant g
  else if ← word? "type" then typeName g .behindDefinition
  else
    require (visibility == .inherited && !isDefault && (← next opensMacroPath))
    macroCall false

/-- What a trait holds behind its name and parameters. -/
def traitRest : Parse Unit := do
  if ← mark? ":" then
    boundsUntil g true do return (← atWord "where") || (← atGroup .brace)
  conditions g
  inside .brace do
    let _ ← innerAttributes g
    let _ ← untilEnd (traitItem g)

/-- A trait or another name for bounds, behind `trait`. -/
def traitRule (allowAlias : Bool) : Parse Unit := do
  let _ ← identifier
  let _ ← generics g
  if allowAlias && (← atMark "=") then
    mark "="
    boundsUntil g false do return (← atWord "where") || (← atMark ";")
    conditions g
    mark ";"
  else traitRest g

/-- An item that is defined elsewhere. -/
def foreignItem : Parse Unit := do
  let _ ← outerAttributes g
  let visibility ← visibility
  let isQualified := (← atWord "unsafe") || (← atWord "safe")
  if ← next (opensFunction true) then
    let _ ← signature g true
    if ← atGroup .brace then
      let _ ← functionBody g
    else mark ";"
  else if (← atWord "static") || (isQualified && (← second (Token.isWord "static"))) then
    if isQualified then drop 1
    word "static"
    let _ ← word? "mut"
    let _ ← identifier
    mark ":"
    let _ ← g (.type true)
    if ← mark? "=" then
      let _ ← g (.expression true)
    mark ";"
  else if ← word? "type" then typeName g .anywhere
  else
    require (visibility == .inherited && (← next opensMacroPath))
    macroCall false

/-- Items that are defined elsewhere, behind how they are called. -/
def foreignItems : Parse Unit :=
  inside .brace do
    let _ ← innerAttributes g
    let _ ← untilEnd (foreignItem g)

/-! ## Implementations -/

/-- An item of an implementation; only functions with a body are kept. -/
def implementationItem : Parse (Option Function) := do
  let outer ← outerAttributes g
  let visibility ← visibility
  let isDefault := (← atWord "default") && !(← second (Token.isMark "!"))
  if isDefault then drop 1
  if ← next (opensFunction false) then
    let signature ← signature g false
    if ← mark? ";" then return none
    let inner ← functionBody g
    return some { attributes := outer ++ inner, isPublic := visibility == .full, signature }
  if ← word? "const" then constant g
  else if ← word? "type" then typeName g .behindDefinition
  else
    require (visibility == .inherited && !isDefault && (← next opensMacroPath))
    macroCall false
  return none

/-- An implementation. One with a reach, a constant one, or one of something that is no trait is
not kept. -/
def implementationRule (hasReach : Bool) : Parse Item := do
  let _ ← word? "default"
  let _ ← word? "unsafe"
  word "impl"
  if ← next opensGenerics then
    let _ ← generics g
  let isConstant := (← atWord "const") || ((← atMark "?") && (← second (Token.isWord "const")))
  if isConstant then
    let _ ← mark? "?"
    word "const"
  let isNegative := (← atMark "!") && !(← second (Token.isGroup .brace))
  if isNegative then drop 1
  let first ← g (.type true)
  let isFor ← word? "for"
  require (isFor || !isNegative)
  let target ← if isFor then g (.type true) else pure first
  conditions g
  let functions ← inside .brace do
    let _ ← innerAttributes g
    untilEnd (implementationItem g)
  if hasReach || isConstant || (isFor && !first.isPlainPath) then return .other
  return .implementation { hasTrait := isFor, target, functions := functions.filterMap id }

/-! ## Imports -/

/-- A tree of imports. -/
def importsRule (root : Bool) : Parse Unit := do
  if ← mark? "*" then return
  if ← atGroup .brace then
    let _ ← inside .brace <| commaList do
      let isRooted ← if root then mark? "::" else pure false
      g (.imports (root && !isRooted))
    return
  require ((← next Token.isIdentifier) ||
    ["self", "super", "crate", "try"].any (Token.isWord · (← ahead)))
  let _ ← anyWord
  if ← mark? "::" then g (.imports false)
  else if ← word? "as" then nameOrBlank

/-- Imports behind `use`. -/
def imports : Parse Unit := do
  let isRooted ← mark? "::"
  g (.imports !isRooted)
  mark ";"

/-- The import of a crate behind `extern crate`. -/
def crateImport : Parse Unit := do
  if !(← word? "self") then
    let _ ← identifier
  if ← word? "as" then nameOrBlank
  mark ";"

/-! ## All items -/

/-- A module behind `mod`. -/
def moduleRule : Parse Item := do
  let name ← if ← atWord "try" then anyWord else identifier
  if ← mark? ";" then return .module name []
  let items ← inside .brace do
    let _ ← innerAttributes g
    untilEnd (g .item)
  return .module name items

/-- The definition of a macro by its patterns, behind `macro`. -/
def macroDefinition : Parse Unit := do
  let _ ← identifier
  if ← atGroup .parenthesis then drop 1
  require ((← anyGroup) == .brace)

/-- An item that is not kept, if one comes next that begins with its own word. -/
def plainItem? (isInherited : Bool) : Parse Bool := do
  let ts ← ahead
  if opensFunction false ts then
    let _ ← signature g false
    if !(← mark? ";") then
      let _ ← functionBody g
  else if Token.isWord "extern" ts && Token.isWord "crate" (ts.drop 1) then
    drop 2
    crateImport
  else if Token.isWord "extern" ts then
    require isInherited
    abi
    foreignItems g
  else if Token.isWord "unsafe" ts && Token.isWord "extern" (ts.drop 1) then
    require isInherited
    drop 1
    abi
    foreignItems g
  else if ← word? "use" then imports g
  else if ← word? "static" then staticValue g
  else if ← word? "const" then constant g
  else if ← word? "type" then typeName g .beforeDefinition
  else if Token.isWord "union" ts && Token.isIdentifier (ts.drop 1) then
    drop 1
    unionRule g
  else if ← word? "trait" then traitRule g true
  else if ← word? "macro" then macroDefinition
  else return false
  return true

/-- Drops the words before `trait` that change its meaning; says whether there are some. -/
def traitPrelude : Parse Bool := do
  let ts ← ahead
  let behind := skipWord "auto" (skipWord "unsafe" ts)
  if behind.length < ts.length && Token.isWord "trait" behind then
    drop (ts.length - behind.length + 1)
    return true
  return false

/-- An item. -/
def itemRule : Parse Item := do
  let attributes ← outerAttributes g
  let visibility ← visibility
  if ← plainItem? g (visibility == .inherited) then return .other
  if ← word? "struct" then return .structure (← structureRule g attributes)
  if ← word? "enum" then return .enumeration (← enumerationRule g attributes)
  if ← traitPrelude then
    traitRule g false
    return .other
  let ts ← ahead
  if Token.isWord "mod" (skipWord "unsafe" ts) then
    let _ ← word? "unsafe"
    drop 1
    return ← moduleRule g
  if Token.isWord "impl" ts || (Token.isWord "unsafe" ts && Token.isWord "impl" (ts.drop 1)) ||
      (Token.isWord "default" ts && !Token.isMark "!" (ts.drop 1)) then
    return ← implementationRule g (visibility != .inherited)
  require (visibility == .inherited && opensMacroPath ts)
  macroCall true
  return .other

end ApiModels.Source
