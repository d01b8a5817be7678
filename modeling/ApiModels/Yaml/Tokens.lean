import ApiModels.Yaml.Scalar
import ApiModels.Yaml.Tag

/-!
# The tokens of a text

In a block collection indentation opens and closes collections. A word is known to be a key only
when its colon comes, so the place of each possible key is kept, one for each level of flow
collections, and the marks of the key are put there later. A key stands on one line and begins within
1024 bytes before its colon.
-/

namespace ApiModels.Yaml

/-- The place of a word that may turn out to be a key. -/
structure KeyPlace where
  /-- The number of tokens before the word. -/
  number : Nat
  /-- The first character of the word. -/
  start : Glyph
  /-- Whether the word has to be a key: it opens a line of a block mapping. -/
  required : Bool
deriving Repr

/-- The tokens read so far, and what decides about the next one. -/
structure Scan where
  rest : List Glyph
  /-- The tokens, the newest first. -/
  tokens : List Token := []
  /-- The number of tokens. -/
  count : Nat := 0
  /-- The columns of the open block collections, the innermost first. -/
  columns : List Nat := []
  /-- The possible key at this level. -/
  key : Option KeyPlace := none
  /-- The possible keys at the levels of flow collections around this one. -/
  outer : List (Option KeyPlace) := []
  keyAllowed : Bool := true

namespace Scan

/-- Whether the place is inside a flow collection. -/
def inFlow (s : Scan) : Bool := !s.outer.isEmpty

/-- The column of the next glyph. -/
def column (s : Scan) : Nat := (s.rest.head?.map (·.column)).getD 0

/-- One more than the column of the innermost block collection. -/
def leastIndent (s : Scan) : Nat :=
  match s.columns with
  | [] => 0
  | column :: _ => column + 1

/-- Adds a token. -/
def push (s : Scan) (t : Token) : Scan := { s with tokens := t :: s.tokens, count := s.count + 1 }

/-- Puts a token where `number` tokens stand before it. -/
def putAt (s : Scan) (number : Nat) (t : Token) : Scan :=
  { s with tokens := s.tokens.insertIdx (s.count - number) t, count := s.count + 1 }

/-- Drops glyphs. -/
def skip (s : Scan) (n : Nat) : Scan := { s with rest := s.rest.drop n }

/-- Closes the innermost block collections as long as `isDone` holds of their columns. -/
def closeWhile (s : Scan) (isDone : Nat → Bool) : Scan :=
  let done := s.columns.takeWhile isDone
  { s with
    tokens := List.replicate done.length .blockEnd ++ s.tokens
    count := s.count + done.length
    columns := s.columns.drop done.length }

/-- Closes the block collections that stand deeper than `column`. -/
def closeDeeper (s : Scan) (column : Nat) : Scan :=
  if s.inFlow then s else s.closeWhile (column < ·)

/-- Closes all block collections. -/
def closeAll (s : Scan) : Scan := if s.inFlow then s else s.closeWhile fun _ => true

/-- Opens a block collection at `column` with the token `t` where `number` tokens stand before it,
unless one is open there or deeper. -/
def openAt (s : Scan) (column number : Nat) (t : Token) : Scan :=
  if !s.inFlow && s.leastIndent ≤ column then
    { s.putAt number t with columns := column :: s.columns }
  else s

/-- Whether a place is too far before `g` for its word to be a key. -/
def isStale (g : Glyph) (k : KeyPlace) : Bool :=
  k.start.line < g.line || k.start.offset + 1024 < g.offset

/-- Gives up a possible key; `none` if it had to be one. -/
def dropKey? (k : Option KeyPlace) : Option (Option KeyPlace) :=
  if k.any (·.required) then none else some none

/-- Gives up the possible key at this level. -/
def forgetKey? (s : Scan) : Option Scan := do return { s with key := ← dropKey? s.key }

/-- Gives up the possible keys that are too far before `g`. -/
def forgetStale? (s : Scan) (g : Glyph) : Option Scan := do
  let check (k : Option KeyPlace) : Option (Option KeyPlace) :=
    if k.any (isStale g) then dropKey? k else some k
  return { s with key := ← check s.key, outer := ← s.outer.mapM check }

/-- Notes the next word as a possible key. -/
def noteKey? (s : Scan) : Option Scan :=
  match s.rest with
  | [] => some s
  | g :: _ =>
    if s.keyAllowed then do
      let required := !s.inFlow && s.columns.head? == some g.column
      let s ← s.forgetKey?
      return { s with key := some ⟨s.count, g, required⟩ }
    else some s

/-- Drops blanks, comments and line breaks in front of the next token. Tabs are no indentation: they
are dropped only inside flow collections and behind a token on its line. -/
def skipGap (inFlow : Bool) : Bool → Bool → List Glyph → Bool × List Glyph
  | keyAllowed, _, [] => (keyAllowed, [])
  | keyAllowed, inComment, g :: gs =>
    if g.isBreak then skipGap inFlow (keyAllowed || !inFlow) false gs
    else if inComment || g.char = '#' then skipGap inFlow keyAllowed true gs
    else if g.char = ' ' || (g.char = '\t' && (inFlow || !keyAllowed)) ||
        (g.column = 0 && g.char = byteOrderMark) then
      skipGap inFlow keyAllowed false gs
    else (keyAllowed, g :: gs)

/-! ## One token -/

/-- A line with a directive. -/
def directiveStep? (s : Scan) : Option Scan := do
  let s ← s.closeAll.forgetKey?
  let (token, rest) ← directive? (s.rest.drop 1)
  return { s.push token with rest := rest, keyAllowed := false }

/-- The mark for the beginning or the end of a document. -/
def documentStep? (s : Scan) (t : Token) : Option Scan := do
  let s ← s.closeAll.forgetKey?
  return { (s.skip 3).push t with keyAllowed := false }

/-- The beginning of a flow collection. -/
def openFlow? (s : Scan) (t : Token) : Option Scan := do
  let s ← s.noteKey?
  return { (s.skip 1).push t with key := none, outer := s.key :: s.outer, keyAllowed := true }

/-- The end of a flow collection. -/
def closeFlow? (s : Scan) (t : Token) : Option Scan := do
  let s ← s.forgetKey?
  let s := match s.outer with
    | [] => s
    | key :: outer => { s with key := key, outer := outer }
  return { (s.skip 1).push t with keyAllowed := false }

/-- The comma of a flow collection. -/
def commaStep? (s : Scan) : Option Scan := do
  let s ← s.forgetKey?
  return { (s.skip 1).push .comma with keyAllowed := true }

/-- Opens a block collection at the next glyph, where only a key or an item may stand. -/
def openHere? (s : Scan) (t : Token) : Option Scan :=
  if s.inFlow then some s
  else if s.keyAllowed then some (s.openAt s.column s.count t)
  else none

/-- The dash of an item. -/
def itemStep? (s : Scan) : Option Scan := do
  let s ← (← s.openHere? .blockSequence).forgetKey?
  return { (s.skip 1).push .item with keyAllowed := true }

/-- The question mark of a key. -/
def keyStep? (s : Scan) : Option Scan := do
  let s ← (← s.openHere? .blockMapping).forgetKey?
  return { (s.skip 1).push .key with keyAllowed := !s.inFlow }

/-- The colon of a value. Behind a possible key it makes it one. -/
def valueStep? (s : Scan) : Option Scan :=
  match s.key with
  | some k =>
    let s := (s.putAt k.number .key).openAt k.start.column k.number .blockMapping
    some { (s.skip 1).push .value with key := none, keyAllowed := false }
  | none => do
    let s ← s.openHere? .blockMapping
    return { (s.skip 1).push .value with keyAllowed := !s.inFlow }

/-- An anchor or alias. -/
def anchorStep? (s : Scan) (token : String → Token) : Option Scan := do
  let s ← s.noteKey?
  let (name, rest) ← anchorName? (s.rest.drop 1)
  return { s.push (token name) with rest := rest, keyAllowed := false }

/-- A tag. -/
def tagStep? (s : Scan) : Option Scan := do
  let s ← s.noteKey?
  let (token, rest) ← tag? s.inFlow s.rest
  return { s.push token with rest := rest, keyAllowed := false }

/-- A block scalar. -/
def blockStep? (s : Scan) (style : Style) : Option Scan := do
  let s ← s.forgetKey?
  let (text, rest) ← block? (style = .literal) s.leastIndent (s.rest.drop 1)
  return { s.push (.scalar style (String.ofList text)) with rest := rest, keyAllowed := true }

/-- A quoted scalar. -/
def quotedStep? (s : Scan) (style : Style) : Option Scan := do
  let s ← s.noteKey?
  let (text, rest) ← quoted? style (s.rest.drop 1)
  return { s.push (.scalar style (String.ofList text)) with rest := rest, keyAllowed := false }

/-- A plain scalar. -/
def plainStep? (s : Scan) : Option Scan := do
  let s ← s.noteKey?
  let scanned ← plain? s.inFlow s.leastIndent s.rest
  return { s.push (.scalar .plain (String.ofList scanned.text)) with
    rest := scanned.rest
    keyAllowed := scanned.endsLine }

/-- Whether a plain scalar can begin with `c` before `next`. -/
def opensPlain (inFlow : Bool) (c : Char) (next : List Glyph) : Bool :=
  if c = '-' then !(next.head?.any (·.isBlank))
  else if c = '?' || c = ':' then !inFlow && !atWordEnd next
  else !indicators.contains c

/-- The token at the front. -/
def tokenStep? (s : Scan) (g : Glyph) (next : List Glyph) : Option Scan :=
  if g.column = 0 && g.char = '%' then s.directiveStep?
  else if atTriple '-' s.rest then s.documentStep? .documentStart
  else if atTriple '.' s.rest then s.documentStep? .documentEnd
  else
    let word := atWordEnd next
    match g.char with
    | '[' => s.openFlow? .flowSequence
    | '\x7b' => s.openFlow? .flowMapping
    | ']' => s.closeFlow? .flowSequenceEnd
    | '\x7d' => s.closeFlow? .flowMappingEnd
    | ',' => s.commaStep?
    | '*' => s.anchorStep? .alias
    | '&' => s.anchorStep? .anchor
    | '!' => s.tagStep?
    | '\'' => s.quotedStep? .singleQuoted
    | '"' => s.quotedStep? .doubleQuoted
    | c =>
      if c = '-' && word then s.itemStep?
      else if c = '?' && (s.inFlow || word) then s.keyStep?
      else if c = ':' && (s.inFlow || word) then s.valueStep?
      else if c = '|' && !s.inFlow then s.blockStep? .literal
      else if c = '>' && !s.inFlow then s.blockStep? .folded
      else if opensPlain s.inFlow c next then s.plainStep?
      else none

/-- The end of the text: all collections are closed. -/
def finish? (s : Scan) : Option (List Token) := do
  let s ← s.closeAll.forgetKey?
  return s.tokens.reverse

/-- Reads tokens to the end of the text. Every round uses up at least one glyph. -/
def run? : Nat → Scan → Option (List Token)
  | 0, _ => none
  | fuel + 1, s =>
    let (keyAllowed, rest) := skipGap s.inFlow s.keyAllowed false s.rest
    let s := { s with rest := rest, keyAllowed := keyAllowed }
    match rest with
    | [] => s.finish?
    | g :: next => do
      let s ← s.forgetStale? g
      run? fuel (← (s.closeDeeper g.column).tokenStep? g next)

end Scan

/-- The tokens of a text. -/
def tokens? (text : String) : Option (List Token) :=
  let cs := text.toList
  if cs.all isReadable then
    let gs := glyphs cs
    Scan.run? (gs.length + 1) { rest := gs }
  else none

end ApiModels.Yaml
