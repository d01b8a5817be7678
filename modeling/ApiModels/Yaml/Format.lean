import ApiModels.Data.Format
import ApiModels.Yaml.Document

/-!
# YAML nodes as data

Every scalar can be taken for its text, whatever its style. A plain scalar without text can also be
an empty list, map or record, and an absent value; so can the null words. Truth values are plain
words. Tags count only where they name a null, a truth value or a word.

An alias is taken for the node that it stands for. Since a short document can stand for a very large
one in this way, aliases may be followed a hundred times for each mark of the document.
-/

namespace ApiModels.Yaml

open ApiModels.Data

/-- The tag of nulls. -/
def nullTag : String := "tag:yaml.org,2002:null"

/-- The tag of truth values. -/
def truthTag : String := "tag:yaml.org,2002:bool"

/-- The word that a tag of the document's own names. -/
def wordOfTag? (tag : Option String) : Option String :=
  match tag.map String.toList with
  | some ['!'] => some "!"
  | some ('!' :: word) => some (String.ofList word)
  | _ => none

/-- The text of a scalar. -/
def Node.text? : Node → Option String
  | .scalar _ _ text => some text
  | _ => none

/-- Whether the node is a plain scalar without text. -/
def Node.isVoid : Node → Bool
  | .scalar .plain _ text => text.isEmpty
  | _ => false

/-- Whether a scalar with a word for its tag is a null. -/
def Node.isNull : Node → Bool
  | .scalar .plain _ text => text.isEmpty || isNullWord text
  | _ => false

/-- The value of a node that may be absent. A plain scalar with a tag is there, unless the tag is
that of nulls; then it must be a null word. -/
def Node.optional? : Node → Option (Option Node)
  | .scalar .plain (some tag) text =>
    if tag = nullTag then if isNullWord text then some none else none
    else some (some (.scalar .plain (some tag) text))
  | .scalar .plain none text =>
    if text.isEmpty || isNullWord text then some none
    else some (some (.scalar .plain none text))
  | node => some (some node)

/-- The truth value that a scalar stands for. -/
def Node.truth? : Node → Option Bool
  | .scalar .plain _ text => Yaml.truth? text
  | .scalar .literal (some tag) text => if tag = truthTag then Yaml.truth? text else none
  | _ => none

/-- The items of a sequence. -/
def Node.items? : Node → Option (List Node)
  | .sequence _ items => some items
  | node => if node.isVoid then some [] else none

/-- The word that a scalar or its tag names. -/
def Node.choice? (node : Node) : Option String :=
  match node with
  | .scalar _ tag text =>
    match wordOfTag? tag with
    | some word => if node.isNull then some word else none
    | none => some text
  | _ => none

namespace Document

/-- The node itself, or the node that it stands for. -/
def settle (d : Document) (node : Node) : Decode Node :=
  match node with
  | .alias number => do
    Decode.follow
    return (d.target? number).getD node
  | node => pure node

/-- The entries of a mapping whose keys are all scalars. -/
def entries? (d : Document) (node : Node) : Decode (List (String × Node)) := do
  match ← d.settle node with
  | .mapping _ entries =>
    entries.mapM fun (key, value) => do return (← (← d.settle key).text?, value)
  | node => if node.isVoid then return [] else failure

/-- What the nodes of a document can be taken for. -/
def format (d : Document) : Format Node where
  text? node := do (← d.settle node).text?
  truth? node := do (← d.settle node).truth?
  items? node := do (← d.settle node).items?
  entries? := d.entries?
  record? node := .named <$> d.entries? node
  optional? node := do (← d.settle node).optional?
  choice? node := do (← d.settle node).choice?

/-- How often aliases may be followed in a document. -/
def allowance (d : Document) : Nat := 100 * d.root.size

/-- What a decoder finds in a document. -/
def decode? {α : Type} (decoder : Format Node → Node → Decode α) (d : Document) : Option α :=
  (decoder d.format d.root).within? d.allowance

end Document

end ApiModels.Yaml
