import ApiModels.Source.Token
import ApiModels.Source.Tree

/-!
# Parsing tokens

A parser takes tokens from the front of a list. The grammar is recursive: its rules are written over
a parser for each `Nonterminal`, and `Grammar.of` ties them together. Tokens left over in a group do
not stop a parser, but the file that they are in is refused.
-/

namespace ApiModels.Source

/-- The tokens to come, and whether tokens were left over in some group. -/
structure Remaining where
  tokens : List Token
  hasLeftover : Bool := false

/-- A parser; `none` if the tokens do not have the form. -/
abbrev Parse := StateT Remaining Option

/-! ## Looking ahead -/

/-- Words that are no identifiers unless they are raw. -/
def keywords : List String :=
  ["_", "abstract", "as", "async", "await", "become", "box", "break", "const", "continue", "crate",
   "do", "dyn", "else", "enum", "extern", "false", "final", "fn", "for", "if", "impl", "in", "let",
   "loop", "macro", "match", "mod", "move", "mut", "override", "priv", "pub", "ref", "return",
   "Self", "self", "static", "struct", "super", "trait", "true", "try", "type", "typeof", "unsafe",
   "unsized", "use", "virtual", "where", "while", "yield"]

namespace Token

/-- Whether the word `text` comes next. -/
def isWord (text : String) : List Token → Bool
  | .word t false :: _ => t == text
  | _ => false

/-- Whether any word comes next. -/
def isAnyWord : List Token → Bool
  | .word .. :: _ => true
  | _ => false

/-- Whether an identifier comes next. -/
def isIdentifier : List Token → Bool
  | .word text isRaw :: _ => isRaw || !keywords.contains text
  | _ => false

/-- Whether the characters of a mark come next, each but the last followed at once by another. -/
def isMarkOf : List Char → List Token → Bool
  | [c], .mark d _ :: _ => c == d
  | c :: cs, .mark d isJoint :: rest => c == d && isJoint && isMarkOf cs rest
  | _, _ => false

/-- Whether the mark `text` comes next; a longer mark may follow. -/
def isMark (text : String) (ts : List Token) : Bool := isMarkOf text.toList ts

/-- Whether a lifetime comes next. -/
def isLifetime : List Token → Bool
  | .lifetime _ :: _ => true
  | _ => false

/-- Whether a group comes next. -/
def isGroup (delimiter : Delimiter) : List Token → Bool
  | .group d _ :: _ => d == delimiter
  | _ => false

/-- Whether any group comes next. -/
def isAnyGroup : List Token → Bool
  | .group .. :: _ => true
  | _ => false

/-- A literal at the front and the number of its tokens: a truth value is a word, and a number may
have a minus sign. -/
def literal? : List Token → Option (Literal × Nat)
  | .literal value :: _ => some (value, 1)
  | .word text false :: _ =>
    if text == "true" then some (.truth true, 1)
    else if text == "false" then some (.truth false, 1)
    else none
  | .mark '-' _ :: .literal (.integer digits hasSuffix) :: _ =>
    some (.integer ("-" ++ digits) hasSuffix, 2)
  | .mark '-' _ :: .literal (.decimal digits written) :: _ =>
    some (.decimal ("-" ++ digits) ("-" ++ written), 2)
  | _ => none

/-- Whether a literal comes next. -/
def isLiteral (ts : List Token) : Bool := (literal? ts).isSome

end Token

namespace Parse

/-- The tokens to come. -/
def ahead : Parse (List Token) := do return (← get).tokens

/-- Whether the next tokens have a form. -/
def next (form : List Token → Bool) : Parse Bool := do return form (← ahead)

/-- Whether the tokens behind the next one have a form. -/
def second (form : List Token → Bool) : Parse Bool := do return form ((← ahead).drop 1)

/-- Whether the tokens behind the next two have a form. -/
def third (form : List Token → Bool) : Parse Bool := do return form ((← ahead).drop 2)

/-- Whether no tokens are left. -/
def atEnd : Parse Bool := next (·.isEmpty)

/-- Whether the word `text` comes next. -/
def atWord (text : String) : Parse Bool := next (Token.isWord text)

/-- Whether the mark `text` comes next. -/
def atMark (text : String) : Parse Bool := next (Token.isMark text)

/-- Whether a group comes next. -/
def atGroup (delimiter : Delimiter) : Parse Bool := next (Token.isGroup delimiter)

/-! ## Taking tokens -/

/-- Drops tokens. -/
def drop (n : Nat) : Parse Unit := modify fun s => { s with tokens := s.tokens.drop n }

/-- Refuses unless `condition` holds. -/
def require (condition : Bool) : Parse Unit := if condition then pure () else failure

/-- The word `text`. -/
def word (text : String) : Parse Unit := do
  require (← atWord text)
  drop 1

/-- The word `text`, if it comes next. -/
def word? (text : String) : Parse Bool := do
  let found ← atWord text
  if found then drop 1
  return found

/-- The mark `text`. -/
def mark (text : String) : Parse Unit := do
  require (← atMark text)
  drop text.length

/-- The mark `text`, if it comes next. -/
def mark? (text : String) : Parse Bool := do
  let found ← atMark text
  if found then drop text.length
  return found

/-- Any word, keywords included. -/
def anyWord : Parse Identifier := do
  match ← ahead with
  | .word text isRaw :: _ =>
    drop 1
    return ⟨text, isRaw⟩
  | _ => failure

/-- An identifier. -/
def identifier : Parse Identifier := do
  require (← next Token.isIdentifier)
  anyWord

/-- A lifetime. -/
def lifetime : Parse String := do
  match ← ahead with
  | .lifetime name :: _ =>
    drop 1
    return name
  | _ => failure

/-- A literal. -/
def literal : Parse Literal := do
  match Token.literal? (← ahead) with
  | some (value, n) =>
    drop n
    return value
  | none => failure

/-- A group whose content has a form. -/
def inside {α : Type} (delimiter : Delimiter) (content : Parse α) : Parse α := do
  match ← ahead with
  | .group d ts :: rest =>
    require (d == delimiter)
    let outer ← get
    match content.run { tokens := ts } with
    | some (a, inner) =>
      set { outer with
        tokens := rest
        hasLeftover := outer.hasLeftover || inner.hasLeftover || !inner.tokens.isEmpty }
      return a
    | none => failure
  | _ => failure

/-- Any group, whatever it holds; says which brackets it has. -/
def anyGroup : Parse Delimiter := do
  match ← ahead with
  | .group delimiter _ :: _ =>
    drop 1
    return delimiter
  | _ => failure

/-- Tries a parser; if it fails, nothing is taken. -/
def attempt {α : Type} (p : Parse α) : Parse (Option α) := fun s =>
  match p.run s with
  | some (a, after) => some (some a, after)
  | none => some (none, s)

/-- Goes on while `step` finds something. -/
def repeatFor {α : Type} (step : Parse (Option α)) : Nat → Parse (List α)
  | 0 => failure
  | fuel + 1 => do
    match ← step with
    | none => return []
    | some a => return a :: (← repeatFor step fuel)

/-- What `step` finds until it finds nothing more. Each find has to take a token. -/
def many {α : Type} (step : Parse (Option α)) : Parse (List α) := do
  repeatFor step ((← ahead).length + 1)

/-- Goes on as long as `step` says so, at most so many times. -/
def repeatWhile (step : Parse Bool) : Nat → Parse Unit
  | 0 => failure
  | fuel + 1 => do if ← step then repeatWhile step fuel

/-- Goes on as long as `step` says so. Each step has to take a token. -/
def loop (step : Parse Bool) : Parse Unit := do repeatWhile step ((← ahead).length + 1)

/-- Items with `separator` between them, up to a place where `isDone` holds; a separator may stand
behind the last item. -/
def separatedUntil {α : Type} (isDone : Parse Bool) (separator : Parse Unit) (item : Parse α) :
    Parse (List α) := do
  let isFirst ← isDone
  if isFirst then return []
  let first ← item
  let rest ← many do
    if ← isDone then return none
    separator
    if ← isDone then return none
    return some (← item)
  return first :: rest

/-- Items with commas between them up to the end of the tokens. -/
def commaList {α : Type} (item : Parse α) : Parse (List α) :=
  separatedUntil atEnd (mark ",") item

/-- Items up to the end of the tokens. -/
def untilEnd {α : Type} (item : Parse α) : Parse (List α) :=
  many do if ← atEnd then return none else return some (← item)

/-- Items joined by plus signs, up to a place where `isDone` holds or no plus sign follows. -/
def plusList {α : Type} (isDone : Parse Bool) (item : Parse α) : Parse (List α) := do
  let rest : Parse (List α) := many do
    if !(← mark? "+") then return none
    if ← isDone then return none
    return some (← item)
  if ← isDone then return []
  return (← item) :: (← rest)

end Parse

/-! ## The grammar -/

/-- What is known of an expression that has been read. -/
inductive Expression where
  | literal (value : Literal)
  /-- Ends in a brace and needs no semicolon as a statement. -/
  | block
  /-- A call of a macro; `isBraced` if its arguments stand in braces. -/
  | macroCall (isBraced : Bool)
  | range
  /-- A comparison. -/
  | comparison
  | other
deriving DecidableEq, Repr, Inhabited

/-- What is known of a pattern that has been read. -/
inductive Pattern where
  /-- Two dots alone. -/
  | rest
  /-- A range without a lower or an upper bound. -/
  | openRange
  | other
deriving DecidableEq, Repr, Inhabited

/-- What a bound on a type is. -/
inductive Bound where
  | lifetime
  /-- What a type may capture. -/
  | capture
  | trait
deriving DecidableEq, Repr, Inhabited

/-- What the grammar has rules for, each with what is made of it. -/
inductive Nonterminal : Type → Type where
  /-- A type; `plus` if further bounds may follow. -/
  | type (plus : Bool) : Nonterminal Ty
  /-- An argument in angle brackets. -/
  | argument : Nonterminal Argument
  /-- A generic parameter; `allowBlank` if an underscore may stand in its place. -/
  | parameter (allowBlank : Bool) : Nonterminal Unit
  | bound (allowCapture allowConst : Bool) : Nonterminal Bound
  /-- An expression; `structures` if it may hold a structure in braces at its outer level. -/
  | expression (structures : Bool) : Nonterminal Expression
  /-- An operand without operators and suffixes. -/
  | atom (structures : Bool) : Nonterminal Expression
  /-- An operand with the operators before it and its suffixes. -/
  | operand (structures : Bool) : Nonterminal Expression
  /-- What follows a left operand, down to a precedence. -/
  | operators (left : Expression) (structures : Bool) (least : Nat) : Nonterminal Expression
  /-- The statements of a block. -/
  | statements : Nonterminal Unit
  /-- A pattern without alternatives. -/
  | pattern : Nonterminal Pattern
  | item : Nonterminal Item
  /-- A field with a name. -/
  | field : Nonterminal NamedField
  /-- A tree of imports; `root` if it may begin at the root of a crate. -/
  | imports (root : Bool) : Nonterminal Unit
  /-- The entries of a nested list in an attribute. -/
  | entries : Nonterminal Unit

/-- A parser for each nonterminal. -/
abbrev Grammar := {α : Type} → Nonterminal α → Parse α

/-- The grammar with these rules, followed to a depth. -/
def Grammar.of (rules : Grammar → Grammar) : Nat → Grammar
  | 0 => fun _ => failure
  | depth + 1 => fun nonterminal s => rules (Grammar.of rules depth) nonterminal s

end ApiModels.Source
