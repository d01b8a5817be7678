import ApiModels.KeyedList
import ApiModels.Yaml.Node
import ApiModels.Yaml.Tokens

/-!
# YAML documents

The nodes that the tokens of a text make up. A text holds one document; its aliases stand for nodes
by number. An anchor takes the number of names that came up before it; where two anchors have one
number, an alias stands for the node that begins last.
-/

namespace ApiModels.Yaml

/-- A node that aliases can stand for. -/
structure Target where
  number : Nat
  /-- The number of anchored nodes that begin before this one. -/
  order : Nat
  node : Node
deriving Repr

/-- A document: its outermost node, and the nodes that its aliases stand for. -/
structure Document where
  root : Node
  targets : List Target := []
deriving Repr

namespace Document

/-- The node that an alias stands for. -/
def target? (d : Document) (number : Nat) : Option Node :=
  let candidates := d.targets.filter (·.number == number)
  (candidates.find? fun t => candidates.all (·.order ≤ t.order)).map (·.node)

end Document

/-- What has been read of a document, and the tokens to come. -/
structure Reading where
  tokens : List Token
  /-- What the handles of tags stand for. -/
  handles : List (String × String) := []
  anchors : OrderedMap Nat := .empty
  /-- The number of anchored nodes so far. -/
  opened : Nat := 0
  targets : List Target := []

/-- A step of reading; `none` if the tokens make up no document. -/
abbrev Read := StateT Reading Option

namespace Read

/-- The next token. -/
def peek : Read (Option Token) := do return (← get).tokens.head?

/-- Drops the next token. -/
def drop : Read Unit := modify fun r => { r with tokens := r.tokens.drop 1 }

/-- Drops the next token if it is `t`, and says whether it was. -/
def dropIf (t : Token) : Read Bool := do
  if (← peek) == some t then
    drop
    return true
  else return false

/-- Drops the next token, which has to be `t`. -/
def expect (t : Token) : Read Unit := do
  if !(← dropIf t) then failure

/-- Whether one of `ts`, or nothing, comes next. -/
def comesNext (ts : List Token) : Read Bool := do
  match ← peek with
  | none => return true
  | some t => return ts.contains t

/-- The node where nothing is written. -/
def empty : Node := .scalar .plain none ""

/-! ## Properties of nodes -/

/-- A tag at the front, in full. -/
def tag? : Read (Option String) := do
  match ← peek with
  | some (.tag handle suffix) =>
    drop
    if handle.isEmpty then return some suffix
    match (← get).handles.find? (·.1 == handle) with
    | some (_, expansion) => return some (expansion ++ suffix)
    | none => failure
  | _ => return none

/-- The name of an anchor at the front. -/
def anchor? : Read (Option String) := do
  match ← peek with
  | some (.anchor name) =>
    drop
    return some name
  | _ => return none

/-- The anchor and the tag of a node, in either order. -/
def properties : Read (Option String × Option String) := do
  match ← anchor? with
  | some name => return (some name, ← tag?)
  | none =>
    let tag ← tag?
    return (← anchor?, tag)

/-- Reads a node and keeps it for the aliases of `name`. -/
def anchored (name : Option String) (body : Read Node) : Read Node := do
  match name with
  | none => body
  | some name =>
    let before ← get
    let number := KeyedList.size before.anchors
    set { before with
      anchors := KeyedList.set before.anchors (name, number)
      opened := before.opened + 1 }
    let node ← body
    modify fun r => { r with targets := ⟨number, before.opened, node⟩ :: r.targets }
    return node

/-- The tag that a scalar keeps. The lone exclamation mark only says that it is text. -/
def scalarTag (tag : Option String) : Option String := if tag = some "!" then none else tag

/-! ## Nodes -/

/-- Where a node is read. -/
inductive Context where
  /-- In a flow collection. -/
  | flow
  /-- As an item of a block sequence. -/
  | item
  /-- As the key or value of a block mapping, where the items of a sequence need no indentation. -/
  | entry
deriving DecidableEq, Repr

/-- Reads a node unless one of `ends` comes next. -/
def nodeBefore (ends : List Token) (node : Read Node) : Read Node := do
  if ← comesNext ends then return empty else node

mutual
/-- A node. Every step into a node or from item to item uses up a token. -/
def node : Nat → Context → Read Node
  | 0, _ => failure
  | fuel + 1, context => do
    match ← peek with
    | some (.alias name) =>
      drop
      match OrderedMap.get? (← get).anchors name with
      | some number => return .alias number
      | none => failure
    | _ =>
      let (name, tag) ← properties
      anchored name do
        match ← peek with
        | some .item =>
          if context = .entry then return .sequence tag (← bareItems fuel) else content fuel tag name
        | some .blockSequence =>
          if context = .flow then content fuel tag name
          else
            drop
            return .sequence tag (← blockItems fuel)
        | some .blockMapping =>
          if context = .flow then content fuel tag name
          else
            drop
            return .mapping tag (← blockEntries fuel)
        | _ => content fuel tag name

/-- A scalar, a flow collection, or nothing after properties. -/
def content : Nat → Option String → Option String → Read Node
  | 0, _, _ => failure
  | fuel + 1, tag, name => do
    match ← peek with
    | some (.scalar style text) =>
      drop
      return .scalar style (scalarTag tag) text
    | some .flowSequence =>
      drop
      return .sequence tag (← flowItems fuel true)
    | some .flowMapping =>
      drop
      return .mapping tag (← flowEntries fuel true)
    | _ => if tag.isSome || name.isSome then return .scalar .plain tag "" else failure

/-- The items of a block sequence up to its end. -/
def blockItems : Nat → Read (List Node)
  | 0 => failure
  | fuel + 1 => do
    if ← dropIf .blockEnd then return []
    expect .item
    let first ← nodeBefore [.item, .blockEnd] (node fuel .item)
    return first :: (← blockItems fuel)

/-- The items of a sequence without indentation. -/
def bareItems : Nat → Read (List Node)
  | 0 => failure
  | fuel + 1 => do
    if !(← dropIf .item) then return []
    let first ← nodeBefore [.item, .key, .value, .blockEnd] (node fuel .item)
    return first :: (← bareItems fuel)

/-- The entries of a block mapping up to its end. -/
def blockEntries : Nat → Read (List (Node × Node))
  | 0 => failure
  | fuel + 1 => do
    if ← dropIf .blockEnd then return []
    expect .key
    let ends := [.key, .value, .blockEnd]
    let key ← nodeBefore ends (node fuel .entry)
    let value ← if ← dropIf .value then nodeBefore ends (node fuel .entry) else pure empty
    return (key, value) :: (← blockEntries fuel)

/-- The items of a flow sequence up to its end. A key among them makes a mapping of one entry. -/
def flowItems : Nat → Bool → Read (List Node)
  | 0, _ => failure
  | fuel + 1, isFirst => do
    if ← dropIf .flowSequenceEnd then return []
    if !isFirst then
      expect .comma
      if ← dropIf .flowSequenceEnd then return []
    let first ←
      if ← dropIf .key then do
        let key ←
          if ← comesNext [.value, .comma, .flowSequenceEnd] then do
            -- The mark that stands in place of the key is passed over.
            drop
            pure empty
          else node fuel .flow
        let value ←
          if ← dropIf .value then nodeBefore [.comma, .flowSequenceEnd] (node fuel .flow)
          else pure empty
        pure (.mapping none [(key, value)])
      else node fuel .flow
    return first :: (← flowItems fuel false)

/-- The entries of a flow mapping up to its end. -/
def flowEntries : Nat → Bool → Read (List (Node × Node))
  | 0, _ => failure
  | fuel + 1, isFirst => do
    if ← dropIf .flowMappingEnd then return []
    if !isFirst then
      expect .comma
      if ← dropIf .flowMappingEnd then return []
    let first ←
      if ← dropIf .key then do
        let key ← nodeBefore [.value, .comma, .flowMappingEnd] (node fuel .flow)
        let value ←
          if ← dropIf .value then nodeBefore [.comma, .flowMappingEnd] (node fuel .flow)
          else pure empty
        pure (key, value)
      else do pure (← node fuel .flow, empty)
    return first :: (← flowEntries fuel false)
end

/-! ## Documents -/

/-- The directives at the front: at most one version, which must be known, and handles that differ.
The number of tokens bounds the number of rounds. -/
def directives : Nat → Bool → Read Unit
  | 0, _ => failure
  | fuel + 1, hasVersion => do
    match ← peek with
    | some (.version major minor) =>
      drop
      if hasVersion || major ≠ 1 || (minor ≠ 1 && minor ≠ 2) then failure
      directives fuel true
    | some (.handle name expansion) =>
      drop
      if (← get).handles.any (·.1 == name) then failure
      modify fun r => { r with handles := r.handles ++ [(name, expansion)] }
      directives fuel hasVersion
    | _ => return

/-- The handles that need no directive. -/
def standardHandles : List (String × String) := [("!", "!"), ("!!", "tag:yaml.org,2002:")]

/-- The document that all tokens make up. Without the mark for its beginning a document has no
directives and is not empty, unless there are no tokens at all. -/
def document (fuel : Nat) : Read Node := do
  let startsWithDirective := match ← peek with
    | some (.version ..) | some (.handle ..) => true
    | _ => false
  directives fuel false
  modify fun r => { r with handles := r.handles ++ standardHandles }
  let root ←
    if ← dropIf .documentStart then
      let isEmpty := match ← peek with
        | none | some (.version ..) | some (.handle ..) | some .documentStart
        | some .documentEnd => true
        | _ => false
      if isEmpty then pure empty else node fuel .item
    else if startsWithDirective then failure
    else if (← peek).isNone then pure empty
    else node fuel .item
  modify fun r => { r with tokens := r.tokens.dropWhile (· == .documentEnd) }
  if (← peek).isSome then failure
  return root

end Read

/-- The document that a text holds. -/
def read? (text : String) : Option Document := do
  let tokens ← tokens? text
  let (root, reading) ← (Read.document (3 * tokens.length + 6)).run { tokens := tokens }
  return { root := root, targets := reading.targets }

end ApiModels.Yaml
