import ApiModels.Source.Literal

/-!
# Tokens of source text

Words, marks, lifetimes, literals, and groups between brackets.
-/

namespace ApiModels.Source

/-- A pair of brackets. -/
inductive Delimiter where
  | parenthesis
  | bracket
  | brace
deriving DecidableEq, Repr, Inhabited

/-- A token; a group holds the tokens between its brackets. -/
inductive Token where
  /-- A word; a raw one is no keyword. -/
  | word (text : String) (isRaw : Bool)
  /-- One character of a mark, and whether another such character follows at once. -/
  | mark (c : Char) (isJoint : Bool)
  | lifetime (name : String)
  | literal (value : Literal)
  | group (delimiter : Delimiter) (content : List Token)
deriving Repr, Inhabited

/-- The tokens of the attribute that a documentation comment stands for. -/
def docTokens (isInner : Bool) (text : String) : List Token :=
  [.mark '#' false] ++ (if isInner then [.mark '!' false] else []) ++
    [.group .bracket [.word "doc" false, .mark '=' false, .literal (.text text)]]

end ApiModels.Source
