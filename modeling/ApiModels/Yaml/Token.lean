/-!
# YAML tokens

The marks of a text: where collections begin and end, what is a key and what a value, and the
scalars with their properties. The marks of block collections stand for indentation.
-/

namespace ApiModels.Yaml

/-- How a scalar is written. -/
inductive Style where
  | plain
  | singleQuoted
  | doubleQuoted
  | literal
  | folded
deriving DecidableEq, Repr, Inhabited

/-- A mark of a text. -/
inductive Token where
  | version (major minor : Nat)
  /-- What a handle of tags stands for. -/
  | handle (name expansion : String)
  | documentStart
  | documentEnd
  | blockSequence
  | blockMapping
  | blockEnd
  | flowSequence
  | flowSequenceEnd
  | flowMapping
  | flowMappingEnd
  /-- The dash of a block sequence. -/
  | item
  | comma
  | key
  | value
  | alias (name : String)
  | anchor (name : String)
  | tag (handle suffix : String)
  | scalar (style : Style) (text : String)
deriving DecidableEq, Repr, Inhabited

end ApiModels.Yaml
