import ApiModels.Source.Patterns

/-!
# Operators between operands

Operators bind more or less tightly. What stands on the right of an operator takes in all that binds
more tightly; assignments group to the right, comparisons do not group at all.
-/

namespace ApiModels.Source

open Parse

/-! ## How tightly operators bind -/

namespace Precedence

/-- Takes in every operator. -/
def lowest : Nat := 0
/-- Assignments. -/
def assign : Nat := 1
/-- Ranges. -/
def range : Nat := 2
/-- Comparisons. -/
def compare : Nat := 6
/-- Conversions to a type. -/
def cast : Nat := 13

end Precedence

/-- The binary operators with their precedence, each behind the longer ones that begin with it. -/
def binaryOperators : List (String × Nat) :=
  [("+=", Precedence.assign), ("-=", Precedence.assign), ("*=", Precedence.assign),
   ("/=", Precedence.assign), ("%=", Precedence.assign), ("^=", Precedence.assign),
   ("&=", Precedence.assign), ("|=", Precedence.assign), ("<<=", Precedence.assign),
   (">>=", Precedence.assign), ("&&", 4), ("||", 3), ("<<", 10), (">>", 10),
   ("==", Precedence.compare), ("<=", Precedence.compare), ("!=", Precedence.compare),
   (">=", Precedence.compare), ("+", 11), ("-", 11), ("*", 12), ("/", 12), ("%", 12), ("^", 8),
   ("&", 9), ("|", 7), ("<", Precedence.compare), (">", Precedence.compare)]

/-- The binary operator at the front. -/
def binaryOperator? (ts : List Token) : Option (String × Nat) :=
  binaryOperators.find? fun (text, _) => Token.isMark text ts

/-- Whether an assignment comes next. -/
def opensAssignment (ts : List Token) : Bool := Token.isMark "=" ts && !Token.isMark "=>" ts

/-- The precedence of the operator at the front, or the lowest. -/
def precedenceOf (ts : List Token) : Nat :=
  match binaryOperator? ts with
  | some (_, precedence) => precedence
  | none =>
    if opensAssignment ts then Precedence.assign
    else if Token.isMark ".." ts then Precedence.range
    else if Token.isWord "as" ts then Precedence.cast
    else Precedence.lowest

/-- Whether a dot comes next that belongs to no range. -/
def isDot (ts : List Token) : Bool := Token.isMark "." ts && !Token.isMark ".." ts

/-- Whether a range without an upper bound ends here. -/
def endsOpenRange (structures : Bool) (ts : List Token) : Bool :=
  ts.isEmpty || isDot ts || (!structures && Token.isGroup .brace ts) || Token.isWord "as" ts ||
    [",", ";", "?", "=>", "=", "+", "/", "%", "^", ">", "<=", "!=", "-=", "*=", "&=", "|=",
      "<<="].any (Token.isMark · ts)

/-- Whether a suffix comes next that may not follow a conversion. -/
def followsConversion (ts : List Token) : Bool :=
  isDot ts || Token.isMark "?" ts || Token.isGroup .bracket ts || Token.isGroup .parenthesis ts

variable (g : Grammar)

/-- Takes in what binds more tightly than `precedence`. -/
def tighter (structures : Bool) (precedence : Nat) : Nat → Expression → Parse Expression
  | 0, _ => failure
  | fuel + 1, left => do
    let ts ← ahead
    let next := precedenceOf ts
    if next > precedence || (next = precedence && precedence = Precedence.assign) then
      let e ← g (.operators left structures next)
      if (← ahead).length = ts.length then return e
      tighter structures precedence fuel e
    else return left

/-- What stands on the right of an operator. -/
def rightOperand (structures : Bool) (precedence : Nat) : Parse Expression := do
  let fuel := (← ahead).length + 1
  tighter g structures precedence fuel (← g (.operand structures))

/-- The dots of a range and its upper bound. -/
def rangeFrom (structures : Bool) : Parse Expression := do
  let isClosed ← rangeMark false
  if isClosed || !(← next (endsOpenRange structures)) then
    let _ ← rightOperand g structures Precedence.range
  return .range

/-- What follows a left operand, down to the precedence `least`. -/
def operatorsRule (left : Expression) (structures : Bool) (least : Nat) : Parse Expression := do
  if left == .range then return left
  let ts ← ahead
  match binaryOperator? ts with
  | some (text, precedence) =>
    if precedence < least then return left
    require (!(precedence = Precedence.compare && left == .comparison))
    mark text
    let _ ← rightOperand g structures precedence
    let result : Expression := if precedence = Precedence.compare then .comparison else .other
    g (.operators result structures least)
  | none =>
    if least ≤ Precedence.assign && opensAssignment ts then
      mark "="
      let _ ← rightOperand g structures Precedence.assign
      g (.operators .other structures least)
    else if least ≤ Precedence.range && Token.isMark ".." ts then
      g (.operators (← rangeFrom g structures) structures least)
    else if least ≤ Precedence.cast && Token.isWord "as" ts then
      word "as"
      let _ ← g (.type false)
      require (!followsConversion (← ahead))
      g (.operators .other structures least)
    else return left

/-- An expression. -/
def expressionRule (structures : Bool) : Parse Expression := do
  g (.operators (← g (.operand structures)) structures Precedence.lowest)

end ApiModels.Source
