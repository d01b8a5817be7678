import ApiModels.Yaml.Character

/-!
# Characters in their places

A text as characters with their places. Each line break is one glyph; carriage returns, their
pairs with line feeds, and next-line characters are line feeds from here on.
-/

namespace ApiModels.Yaml

/-- A character and the place where it stands. -/
structure Glyph where
  char : Char
  /-- The number of bytes of the text before the character. -/
  offset : Nat
  line : Nat
  column : Nat
deriving DecidableEq, Repr, Inhabited

namespace Glyph

/-- Whether the glyph is a line break. -/
def isBreak (g : Glyph) : Bool := Yaml.isBreak g.char

/-- Whether the glyph is a blank. -/
def isBlank (g : Glyph) : Bool := Yaml.isBlank g.char

/-- Whether the glyph is a blank or a line break. -/
def isSpace (g : Glyph) : Bool := g.isBlank || g.isBreak

end Glyph

/-- A line break as it is kept. -/
def normalBreak (c : Char) : Char := if c = '\r' || c.toNat = 0x85 then '\n' else c

/-- The glyphs of a text that begins at a place. -/
def glyphsFrom (offset line column : Nat) : List Char → List Glyph
  | [] => []
  | '\r' :: '\n' :: cs => ⟨'\n', offset, line, column⟩ :: glyphsFrom (offset + 2) (line + 1) 0 cs
  | c :: cs =>
    let next := offset + c.utf8Size
    if isBreak c then ⟨normalBreak c, offset, line, column⟩ :: glyphsFrom next (line + 1) 0 cs
    else ⟨c, offset, line, column⟩ :: glyphsFrom next line (column + 1) cs

/-- The glyphs of a text. -/
def glyphs (cs : List Char) : List Glyph := glyphsFrom 0 0 0 cs

/-- Whether nothing, a blank or a line break comes next. -/
def atWordEnd : List Glyph → Bool
  | [] => true
  | g :: _ => g.isSpace

/-- Whether one of `marks` comes next. -/
def atOneOf (marks : List Char) : List Glyph → Bool
  | [] => false
  | g :: _ => marks.contains g.char

/-- Whether three `mark`s at the beginning of a line come next, as a word. -/
def atTriple (mark : Char) : List Glyph → Bool
  | a :: b :: c :: rest =>
    a.column = 0 && a.char = mark && b.char = mark && c.char = mark && atWordEnd rest
  | _ => false

/-- Whether the mark for the beginning or the end of a document comes next. -/
def atDocumentMark (gs : List Glyph) : Bool := atTriple '-' gs || atTriple '.' gs

/-- Drops blanks and a comment; at the end of a line what follows it is left, and anything else on
the line is refused. -/
def finishLine? (gs : List Glyph) : Option (List Glyph) :=
  let rest := gs.dropWhile (·.isBlank)
  let rest := if atOneOf ['#'] rest then rest.dropWhile (!·.isBreak) else rest
  match rest with
  | [] => some []
  | g :: rest => if g.isBreak then some rest else none

end ApiModels.Yaml
