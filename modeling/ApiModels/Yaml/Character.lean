/-!
# Characters of YAML

The classes of characters that the readers and writers of YAML go by.
-/

namespace ApiModels.Yaml

/-- The line breaks of YAML. -/
def isBreak (c : Char) : Bool :=
  c = '\n' || c = '\r' || c.toNat = 0x85 || c.toNat = 0x2028 || c.toNat = 0x2029

/-- The blanks of YAML. -/
def isBlank (c : Char) : Bool := c = ' ' || c = '\t'

/-- The byte order mark. -/
def byteOrderMark : Char := Char.ofNat 0xFEFF

/-- The characters that a text may hold at all: no control characters besides the tab and the line
breaks, and no non-characters of the first plane. -/
def isReadable (c : Char) : Bool :=
  let n := c.toNat
  n = 0x09 || n = 0x0A || n = 0x0D || (0x20 ≤ n && n ≤ 0x7E) || n = 0x85 ||
    (0xA0 ≤ n && n ≤ 0xFFFD) || 0x10000 ≤ n

/-- A character that only a double-quoted scalar can hold: a tab, a control character other than the
line feed, a byte order mark or a non-character. -/
def isSpecial (c : Char) : Bool :=
  let n := c.toNat
  (n < 0x20 && n ≠ 0x0A) || (0x7F ≤ n && n ≤ 0x9F) || n = 0xFEFF || n = 0xFFFE || n = 0xFFFF

/-- The characters of names: of anchors, directives and the handles of tags. -/
def isNameChar (c : Char) : Bool := c.isAlphanum || c = '_' || c = '-'

/-- The marks that end a plain scalar inside a flow collection. -/
def flowMarks : List Char := [',', '[', ']', '\x7b', '\x7d']

/-- The characters that cannot open a plain scalar. -/
def indicators : List Char :=
  ['#', ',', '[', ']', '\x7b', '\x7d', '&', '*', '!', '|', '>', '\'', '"', '%', '@', '\x60']

end ApiModels.Yaml
