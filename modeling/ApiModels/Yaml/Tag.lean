import ApiModels.Yaml.Glyph
import ApiModels.Yaml.Token
import ApiModels.Yaml.Word

/-!
# Tags, anchors and directives

Reading the properties of nodes and the lines in front of a document. A tag is written in full
between angle brackets, or as a handle and a suffix; directives say what the handles stand for.
-/

namespace ApiModels.Yaml

/-- The characters at the front that are of a class, as text, and what follows them. -/
def spanChars (ofClass : Char → Bool) (gs : List Glyph) : List Char × List Glyph :=
  let (word, rest) := gs.span fun g => ofClass g.char
  (word.map (·.char), rest)

/-! ## Tags -/

/-- The characters of tags; inside angle brackets some marks of flow collections too. -/
def isTagChar (inBrackets : Bool) (c : Char) : Bool :=
  isNameChar c ||
    [';', '/', '?', ':', '@', '&', '=', '+', '$', '.', '!', '~', '*', '\'', '(', ')', '%'].contains
      c ||
    (inBrackets && [',', '[', ']'].contains c)

/-- A byte written as a percent sign and two digits. -/
def byte? : List Glyph → Option (Nat × List Glyph)
  | mark :: a :: b :: rest =>
    if mark.char = '%' then do return ((← digitValue? a.char) * 16 + (← digitValue? b.char), rest)
    else none
  | _ => none

/-- The number that `count` further bytes of a character complete. -/
def moreBytes? : Nat → Nat → List Glyph → Option (Nat × List Glyph)
  | 0, n, gs => some (n, gs)
  | count + 1, n, gs => do
    let (byte, rest) ← byte? gs
    if byte / 64 = 2 then moreBytes? count (n * 64 + byte % 64) rest else none

/-- A character written as the bytes of its UTF-8 form. -/
def byteChar? (gs : List Glyph) : Option (Char × List Glyph) := do
  let (byte, rest) ← byte? gs
  let (n, rest) ←
    if byte < 0x80 then some (byte, rest)
    else if byte / 32 = 6 then moreBytes? 1 (byte % 32) rest
    else if byte / 16 = 14 then moreBytes? 2 (byte % 16) rest
    else if byte / 8 = 30 then moreBytes? 3 (byte % 8) rest
    else none
  return (Char.ofNat n, rest)

/-- The characters of a tag; every round uses up at least one glyph. -/
def tagChars? (inBrackets : Bool) : Nat → List Glyph → Option (List Char × List Glyph)
  | 0, _ => none
  | _ + 1, [] => some ([], [])
  | fuel + 1, g :: gs =>
    if !isTagChar inBrackets g.char then some ([], g :: gs)
    else do
      let (c, rest) ← if g.char = '%' then byteChar? (g :: gs) else some (g.char, gs)
      let (more, after) ← tagChars? inBrackets fuel rest
      return (c :: more, after)

/-- The characters of a tag behind `start`, which counts as a part of it. -/
def tagText? (inBrackets : Bool) (start : List Char) (gs : List Glyph) :
    Option (List Char × List Glyph) := do
  let (text, rest) ← tagChars? inBrackets (gs.length + 1) gs
  if start.isEmpty && text.isEmpty then none else return (start.drop 1 ++ text, rest)

/-- A handle at the front: an exclamation mark, and possibly a name and a second mark. -/
def handle? : List Glyph → Option (List Char × List Glyph)
  | [] => none
  | g :: gs =>
    if g.char ≠ '!' then none
    else
      let (name, rest) := spanChars isNameChar gs
      if atOneOf ['!'] rest then some ('!' :: name ++ ['!'], rest.drop 1)
      else some ('!' :: name, rest)

/-- A tag: its handle and suffix. The lone exclamation mark is a suffix without handle. -/
def tag? (inFlow : Bool) (gs : List Glyph) : Option (Token × List Glyph) := do
  let (handle, suffix, rest) ←
    match gs with
    | _ :: g :: rest =>
      if g.char = '<' then do
        let (text, rest) ← tagText? true [] rest
        if atOneOf ['>'] rest then some ([], text, rest.drop 1) else none
      else short gs
    | _ => short gs
  if (inFlow && atOneOf [','] rest) || atWordEnd rest then
    return (.tag (String.ofList handle) (String.ofList suffix), rest)
  else none
where
  /-- A tag of handle and suffix. -/
  short (gs : List Glyph) : Option (List Char × List Char × List Glyph) := do
    let (handle, rest) ← handle? gs
    if handle.length > 1 && handle.getLast? == some '!' then
      let (suffix, rest) ← tagText? false [] rest
      return (handle, suffix, rest)
    else
      let (suffix, rest) ← tagText? false handle rest
      return if suffix.isEmpty then ([], ['!'], rest) else (['!'], suffix, rest)

/-! ## Anchors -/

/-- The name of an anchor or alias behind its mark. -/
def anchorName? (gs : List Glyph) : Option (String × List Glyph) :=
  let (name, rest) := spanChars isNameChar gs
  if !name.isEmpty && (atWordEnd rest || atOneOf ['?', ':', ',', ']', '\x7d', '%', '@', '\x60'] rest)
  then some (String.ofList name, rest)
  else none

/-! ## Directives -/

/-- A number of at most nine digits. -/
def versionPart? (gs : List Glyph) : Option (Nat × List Glyph) := do
  let (digits, rest) := spanChars Char.isDigit gs
  if digits.length > 9 then none else return (← natural? 10 digits, rest)

/-- The version that a text is written in. -/
def version? (gs : List Glyph) : Option (Token × List Glyph) := do
  let (major, rest) ← versionPart? (gs.dropWhile (·.isBlank))
  if !atOneOf ['.'] rest then none
  let (minor, rest) ← versionPart? (rest.drop 1)
  return (.version major minor, rest)

/-- A handle and what it stands for. -/
def handleExpansion? (gs : List Glyph) : Option (Token × List Glyph) := do
  let (handle, rest) ← handle? (gs.dropWhile (·.isBlank))
  if handle.length > 1 && handle.getLast? != some '!' then none
  let gap := rest.takeWhile (·.isBlank)
  if gap.isEmpty then none
  let (text, rest) ← tagText? true [] (rest.drop gap.length)
  if atWordEnd rest then return (.handle (String.ofList handle) (String.ofList text), rest)
  else none

/-- A directive behind its mark, up to the end of its line. -/
def directive? (gs : List Glyph) : Option (Token × List Glyph) := do
  let (name, rest) := spanChars isNameChar gs
  if !atWordEnd rest then none
  let (token, rest) ←
    if name = ['Y', 'A', 'M', 'L'] then version? rest
    else if name = ['T', 'A', 'G'] then handleExpansion? rest
    else none
  return (token, ← finishLine? rest)

end ApiModels.Yaml
