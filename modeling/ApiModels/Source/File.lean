import ApiModels.Source.Items
import ApiModels.Source.Lexer

/-!
# Source files

A file holds items behind attributes of its own. A byte order mark and a line that names an
interpreter may stand before them.
-/

namespace ApiModels.Source

/-- The rule for each nonterminal. -/
def rules (g : Grammar) : Grammar
  | _, .type plus => typeRule g plus
  | _, .argument => argumentRule g
  | _, .parameter allowBlank => parameterRule g allowBlank
  | _, .bound allowCapture allowConst => boundRule g allowCapture allowConst
  | _, .expression structures => expressionRule g structures
  | _, .atom structures => atomRule g structures
  | _, .operand structures => operandRule g structures
  | _, .operators left structures least => operatorsRule g left structures least
  | _, .statements => statementsRule g
  | _, .pattern => patternRule g
  | _, .item => itemRule g
  | _, .field => namedField g
  | _, .imports root => importsRule g root
  | _, .entries => entries g

/-- The items of a file. -/
def fileItems (g : Grammar) : Parse (List Item) := do
  let _ ← innerAttributes g
  Parse.untilEnd (g .item)

/-! ## The first line -/

/-- Drops a byte order mark. -/
def dropByteOrderMark : List Char → List Char
  | c :: cs => if c.toNat = 0xFEFF then cs else c :: cs
  | [] => []

/-- The first character that is neither white space nor part of a plain comment. Every round uses up
at least one character. -/
def firstCharacter? : Nat → List Char → Option Char
  | 0, _ => none
  | _ + 1, [] => none
  | fuel + 1, c :: cs =>
    match comment? (c :: cs) with
    | some (.plain, rest) => firstCharacter? fuel rest
    | _ => if isGap c then firstCharacter? fuel cs else some c

/-- Drops a first line that names an interpreter: `#!`, unless an attribute begins with it. -/
def dropInterpreter : List Char → List Char
  | '#' :: '!' :: cs =>
    if firstCharacter? (cs.length + 1) cs == some '[' then '#' :: '!' :: cs
    else cs.dropWhile (· ≠ '\n')
  | cs => cs

/-- The items of a source text, or `none` if it has not the form of one. Each bracket, operator or
word of the text opens at most a few nested rules, so that the depth suffices. -/
def parse? (text : String) : Option (List Item) := do
  let cs := dropByteOrderMark (dropInterpreter (dropByteOrderMark text.toList))
  let tokens ← lex? cs
  let (items, rest) ← (fileItems (Grammar.of rules (8 * cs.length + 64))).run { tokens }
  if rest.hasLeftover then none else return items

theorem parse?_ofList (cs : List Char) : parse? (String.ofList cs) = (do
    let cs := dropByteOrderMark (dropInterpreter (dropByteOrderMark cs))
    let tokens ← lex? cs
    let (items, rest) ← (fileItems (Grammar.of rules (8 * cs.length + 64))).run { tokens }
    if rest.hasLeftover then none else return items) := by
  rw [parse?, String.toList_ofList]

end ApiModels.Source
