import ApiModels.Yaml.Glyph
import ApiModels.Yaml.Token
import ApiModels.Yaml.Word

/-!
# The text of scalars

Reading plain, quoted and block scalars. Between the parts of a plain or quoted scalar a single line
break is a space and further ones stand for themselves; blanks around breaks do not count.
-/

namespace ApiModels.Yaml

/-- The text that white space between two parts of a scalar stands for. -/
def gapText (gap : List Glyph) : List Char :=
  match (gap.filter (·.isBreak)).map (·.char) with
  | [] => gap.map (·.char)
  | ['\n'] => [' ']
  | '\n' :: more => more
  | breaks => breaks

/-- White space at the front, and what follows it. -/
def spanGap (gs : List Glyph) : List Glyph × List Glyph := gs.span (·.isSpace)

/-- Whether a tab stands where the indentation of a further line should be. -/
def hasTabInIndent (indent : Nat) (gap : List Glyph) : Bool :=
  (gap.dropWhile (!·.isBreak)).any fun g => g.char = '\t' && g.column < indent

/-! ## Plain scalars -/

/-- The characters of a plain scalar up to white space or a mark that ends it. In a flow collection
a colon before a mark is refused. -/
def plainPart? (inFlow : Bool) : List Glyph → Option (List Char × List Glyph)
  | [] => some ([], [])
  | g :: gs =>
    if g.isSpace then some ([], g :: gs)
    else if inFlow && g.char = ':' && atOneOf ('?' :: flowMarks) gs then none
    else if (g.char = ':' && atWordEnd gs) || (inFlow && flowMarks.contains g.char) then
      some ([], g :: gs)
    else (plainPart? inFlow gs).map fun (part, rest) => (g.char :: part, rest)

/-- A scalar that has been read. -/
structure Scanned where
  text : List Char
  /-- Whether the scalar is followed by a line break that was read with it. -/
  endsLine : Bool
  rest : List Glyph

/-- The parts of a plain scalar behind the white space `gap`. A part and what follows it use up at
least one glyph, so as many rounds as there are glyphs suffice. -/
def plainParts? (inFlow : Bool) (indent : Nat) : Nat → List Glyph → List Glyph → Option Scanned
  | 0, _, _ => none
  | fuel + 1, gap, gs =>
    let stop : Scanned := ⟨[], gap.any (·.isBreak), gs⟩
    if atDocumentMark gs || atOneOf ['#'] gs then some stop
    else do
      let (part, rest) ← plainPart? inFlow gs
      if part.isEmpty then return stop
      let (next, after) := spanGap rest
      if hasTabInIndent indent next then none
      let more ←
        if next.isEmpty then some ⟨[], false, rest⟩
        else if !inFlow && after.head?.any (·.column < indent) then
          some ⟨[], next.any (·.isBreak), after⟩
        else plainParts? inFlow indent fuel next after
      return { more with text := gapText gap ++ part ++ more.text }

/-- A plain scalar whose further lines have at least the indentation `indent`. -/
def plain? (inFlow : Bool) (indent : Nat) (gs : List Glyph) : Option Scanned :=
  plainParts? inFlow indent (gs.length + 1) [] gs

/-! ## Quoted scalars -/

/-- The characters of a single-quoted scalar up to white space or its closing mark. -/
def singlePart : List Glyph → List Char × List Glyph
  | [] => ([], [])
  | [g] => if g.isSpace || g.char = '\'' then ([], [g]) else ([g.char], [])
  | g :: h :: gs =>
    if g.isSpace then ([], g :: h :: gs)
    else if g.char = '\'' then
      if h.char = '\'' then
        let (part, rest) := singlePart gs
        ('\'' :: part, rest)
      else ([], g :: h :: gs)
    else
      let (part, rest) := singlePart (h :: gs)
      (g.char :: part, rest)

/-- The character that a one-letter escape stands for. -/
def escaped? : Char → Option Char
  | '0' => some (Char.ofNat 0)
  | 'a' => some (Char.ofNat 7)
  | 'b' => some (Char.ofNat 8)
  | 't' => some '\t'
  | '\t' => some '\t'
  | 'n' => some '\n'
  | 'v' => some (Char.ofNat 11)
  | 'f' => some (Char.ofNat 12)
  | 'r' => some '\r'
  | 'e' => some (Char.ofNat 27)
  | ' ' => some ' '
  | '"' => some '"'
  | '/' => some '/'
  | '\\' => some '\\'
  | 'N' => some (Char.ofNat 0x85)
  | '_' => some (Char.ofNat 0xA0)
  | 'L' => some (Char.ofNat 0x2028)
  | 'P' => some (Char.ofNat 0x2029)
  | _ => none

/-- The number of digits after a letter that begins a numeric escape. -/
def escapeWidth? : Char → Option Nat
  | 'x' => some 2
  | 'u' => some 4
  | 'U' => some 8
  | _ => none

/-- The character with this number in digits of base sixteen. -/
def numbered? (width : Nat) (digits : List Char) : Option Char := do
  let n ← natural? 16 digits
  if digits.length = width ∧ n.isValidChar then some (Char.ofNat n) else none

/-- The characters of a double-quoted scalar up to white space, its closing mark or an escaped line
break. -/
def doublePart? : List Glyph → Option (List Char × List Glyph)
  | [] => some ([], [])
  | g :: gs =>
    if g.isSpace || g.char = '"' then some ([], g :: gs)
    else if g.char = '\\' then
      match gs with
      | [] => none
      | h :: rest =>
        if h.isBreak then some ([], g :: h :: rest)
        else match escaped? h.char, escapeWidth? h.char with
          | some c, _ => (doublePart? rest).map fun (part, after) => (c :: part, after)
          | none, some width => do
            let c ← numbered? width ((rest.take width).map (·.char))
            let (part, after) ← doublePart? (rest.drop width)
            return (c :: part, after)
          | none, none => none
    else (doublePart? gs).map fun (part, rest) => (g.char :: part, rest)
termination_by gs => gs.length
decreasing_by all_goals (simp_all; try omega)

/-- What follows an escaped line break at the front. -/
def afterEscapedBreak? : List Glyph → Option (List Glyph)
  | g :: h :: rest => if g.char = '\\' && h.isBreak then some rest else none
  | _ => none

/-- The parts of a quoted scalar up to its closing mark. Every round uses up at least one glyph. -/
def quotedParts? (style : Style) : Nat → List Glyph → Option (List Char × List Glyph)
  | 0, _ => none
  | fuel + 1, gs =>
    let mark := if style = .singleQuoted then '\'' else '"'
    if atDocumentMark gs || gs.isEmpty then none
    else do
      let (part, rest) ← if style = .singleQuoted then some (singlePart gs) else doublePart? gs
      if atOneOf [mark] rest then return (part, rest.drop 1)
      match afterEscapedBreak? rest with
      | some rest =>
        if atOneOf [mark] rest then return (part, rest.drop 1)
        let (gap, rest) := spanGap rest
        let (more, after) ← quotedParts? style fuel rest
        return (part ++ (gap.filter (·.isBreak)).map (·.char) ++ more, after)
      | none =>
        let (gap, rest) := spanGap rest
        let (more, after) ← quotedParts? style fuel rest
        return (part ++ gapText gap ++ more, after)

/-- A quoted scalar behind its opening mark. -/
def quoted? (style : Style) (gs : List Glyph) : Option (List Char × List Glyph) :=
  quotedParts? style (gs.length + 1) gs

/-! ## Block scalars -/

/-- What becomes of the line breaks at the end of a block scalar. -/
inductive Chomping where
  | strip
  | clip
  | keep
deriving DecidableEq, Repr

/-- The chomping that a mark asks for. -/
def chomping? (c : Char) : Option Chomping :=
  if c = '+' then some .keep else if c = '-' then some .strip else none

/-- A chomping mark at the front, if there is one. -/
def chompMark (gs : List Glyph) : Chomping × List Glyph :=
  match gs with
  | g :: rest =>
    match chomping? g.char with
    | some chomping => (chomping, rest)
    | none => (.clip, gs)
  | [] => (.clip, [])

/-- An indentation mark at the front, if there is one; it is not zero. -/
def indentMark? (gs : List Glyph) : Option (Option Nat × List Glyph) :=
  match gs with
  | g :: rest =>
    if g.char = '0' then none
    else if g.char.isDigit then some (some (g.char.toNat - '0'.toNat), rest)
    else some (none, gs)
  | [] => some (none, [])

/-- The marks behind the indicator of a block scalar, in either order, and the rest of its line. -/
def blockHeader? (gs : List Glyph) : Option (Chomping × Option Nat × List Glyph) := do
  if atOneOf ['+', '-'] gs then
    let (chomping, rest) := chompMark gs
    let (indent, rest) ← indentMark? rest
    return (chomping, indent, ← finishLine? rest)
  else
    let (indent, rest) ← indentMark? gs
    let (chomping, rest) := if indent.isSome then chompMark rest else (.clip, rest)
    return (chomping, indent, ← finishLine? rest)

/-- Indentation and line breaks in front of a line with content: the breaks, the deepest
indentation seen, and the rest. Without `indent` all spaces are indentation. A tab in place of
indentation is refused. -/
def blockBreaks? (indent : Option Nat) : List Glyph → Option (List Char × Nat × List Glyph)
  | [] => some ([], 0, [])
  | g :: gs =>
    let inIndent := indent.all (g.column < ·)
    if g.char = ' ' && inIndent then
      (blockBreaks? indent gs).map fun (breaks, deepest, rest) =>
        (breaks, max deepest (g.column + 1), rest)
    else if g.char = '\t' && inIndent then none
    else if g.isBreak then
      (blockBreaks? indent gs).map fun (breaks, deepest, rest) => (g.char :: breaks, deepest, rest)
    else some ([], 0, g :: gs)

/-- The line breaks between two lines of a block scalar, and whether the earlier line begins with a
blank. -/
structure LineGap where
  /-- The break that ends the earlier line. -/
  first : List Char
  more : List Char
  afterBlank : Bool

/-- The text of the breaks in front of a line. In a folded scalar a break between two lines that do
not begin with a blank is a space, or nothing if more breaks follow. -/
def LineGap.text (gap : LineGap) (literal beforeBlank : Bool) : List Char :=
  if !literal && gap.first = ['\n'] && !gap.afterBlank && !beforeBlank then
    if gap.more.isEmpty then [' '] else gap.more
  else gap.first ++ gap.more

/-- The lines of a block scalar with the indentation `indent`, the breaks that follow the last one,
and the rest. Every round uses up a line. -/
def blockLines? (literal : Bool) (indent : Nat) :
    Nat → LineGap → List Glyph → Option (List Char × LineGap × List Glyph)
  | 0, _, _ => none
  | fuel + 1, gap, gs =>
    match gs with
    | [] => some ([], gap, [])
    | g :: _ =>
      if g.column = indent then do
        let (line, rest) := gs.span (!·.isBreak)
        let first := (rest.take 1).map (·.char)
        let (more, _, rest) ← blockBreaks? (some indent) (rest.drop 1)
        let (text, last, after) ← blockLines? literal indent fuel ⟨first, more, g.isBlank⟩ rest
        return (gap.text literal g.isBlank ++ line.map (·.char) ++ text, last, after)
      else some ([], gap, gs)

/-- A block scalar behind its indicator. `outer` is the least indentation of its lines: one more
than that of the collection around it. -/
def block? (literal : Bool) (outer : Nat) (gs : List Glyph) :
    Option (List Char × List Glyph) := do
  let (chomping, mark, rest) ← blockHeader? gs
  let known := mark.map fun n => (outer - 1) + n
  let (breaks, deepest, rest) ← blockBreaks? known rest
  let indent := known.getD (max (max deepest outer) 1)
  let (text, last, rest) ←
    blockLines? literal indent (rest.length + 1) ⟨[], breaks, false⟩ rest
  let ending := match chomping with
    | .strip => []
    | .clip => last.first
    | .keep => last.first ++ last.more
  return (text ++ ending, rest)

end ApiModels.Yaml
