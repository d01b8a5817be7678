import ApiModels.Text.Identifier

/-!
# Literals of source text

Reading strings, characters and numbers, and what they stand for. Strings of bytes and the like are
read but stand for nothing that a reader of declarations could use.
-/

namespace ApiModels.Source

open ApiModels.Text

/-- What a literal stands for. -/
inductive Literal where
  | text (value : String)
  /-- An integer by its decimal digits. -/
  | integer (digits : String) (hasSuffix : Bool)
  /-- A decimal number by its digits, point and exponent, and as it is written. -/
  | decimal (digits written : String)
  | character (value : Char)
  | truth (value : Bool)
  | other
deriving DecidableEq, Repr, Inhabited

/-- The identifier at the front, and what follows it. -/
def identifier? : List Char → Option (List Char × List Char)
  | [] => none
  | c :: cs =>
    if isIdentifierStart c then
      some (c :: cs.takeWhile isIdentifierPart, cs.dropWhile isIdentifierPart)
    else none

/-- Drops an identifier at the front, if there is one. -/
def dropSuffix (cs : List Char) : List Char := ((identifier? cs).map (·.2)).getD cs

/-- The value of a digit in bases up to sixteen. -/
def digitValue? (c : Char) : Option Nat :=
  if '0' ≤ c ∧ c ≤ '9' then some (c.toNat - '0'.toNat)
  else if 'a' ≤ c ∧ c ≤ 'f' then some (c.toNat - 'a'.toNat + 10)
  else if 'A' ≤ c ∧ c ≤ 'F' then some (c.toNat - 'A'.toNat + 10)
  else none

/-! ## Strings -/

/-- What a quoted string holds. -/
inductive Content where
  | text
  | bytes
  /-- Text that ends at its first null character. -/
  | terminated
deriving DecidableEq, Repr

/-- The character of an escape with two digits. -/
def shortEscape? (content : Content) (high low : Char) : Option Char := do
  let h ← digitValue? high
  let l ← digitValue? low
  match content with
  | .text => if h < 8 then some (Char.ofNat (h * 16 + l)) else none
  | .bytes => some (Char.ofNat (h * 16 + l))
  | .terminated => if h = 0 ∧ l = 0 then none else some (Char.ofNat (h * 16 + l))

/-- The character of an escape in braces: one to six digits with underscores behind the first. -/
def longEscape? (count value : Nat) : List Char → Option (Char × List Char)
  | [] => none
  | c :: cs =>
    if c = '_' ∧ 0 < count then longEscape? count value cs
    else if c = '\x7d' ∧ 0 < count then
      if value.isValidChar then some (Char.ofNat value, cs) else none
    else do
      let digit ← digitValue? c
      if count = 6 then none else longEscape? (count + 1) (value * 16 + digit) cs

/-- The character that a one-letter escape stands for. -/
def letterEscape? (content : Content) : Char → Option Char
  | 'n' => some '\n'
  | 'r' => some '\r'
  | 't' => some '\t'
  | '\\' => some '\\'
  | '\'' => some '\''
  | '"' => some '"'
  | '0' => if content = .terminated then none else some (Char.ofNat 0)
  | _ => none

/-- An escape behind its backslash. -/
def escape? (content : Content) : List Char → Option (Char × List Char)
  | 'x' :: high :: low :: cs => (shortEscape? content high low).map (·, cs)
  | 'u' :: '\x7b' :: cs =>
    if content = .bytes then none
    else match longEscape? 0 0 cs with
      | some (c, rest) => if content = .terminated ∧ c.toNat = 0 then none else some (c, rest)
      | none => none
  | c :: cs => (letterEscape? content c).map (·, cs)
  | [] => none

/-- Drops white space behind a backslash at the end of a line; a carriage return stands before a
line feed only. -/
def dropLineGap? : List Char → Option (List Char)
  | '\r' :: '\n' :: cs => dropLineGap? cs
  | '\r' :: _ => none
  | [] => none
  | c :: cs => if c = ' ' || c = '\t' || c = '\n' then dropLineGap? cs else some (c :: cs)

/-- Whether a character may stand in a string as it is. -/
def isPlainIn (content : Content) (c : Char) : Bool :=
  match content with
  | .text => true
  | .bytes => c.toNat < 128
  | .terminated => c.toNat ≠ 0

/-- The characters up to the closing quotation mark, and what follows it. Every round uses up at
least one character. -/
def quotedRest? (content : Content) : Nat → List Char → Option (List Char × List Char)
  | 0, _ => none
  | fuel + 1, cs =>
    match cs with
    | [] => none
    | '"' :: rest => some ([], rest)
    | '\r' :: '\n' :: rest =>
      (quotedRest? content fuel rest).map fun (text, after) => ('\n' :: text, after)
    | '\r' :: _ => none
    | '\\' :: '\n' :: rest => do quotedRest? content fuel (← dropLineGap? rest)
    | '\\' :: '\r' :: rest => do quotedRest? content fuel (← dropLineGap? ('\r' :: rest))
    | '\\' :: rest => do
      let (c, rest) ← escape? content rest
      let (text, after) ← quotedRest? content fuel rest
      return (c :: text, after)
    | c :: rest =>
      if isPlainIn content c then
        (quotedRest? content fuel rest).map fun (text, after) => (c :: text, after)
      else none

/-- A string behind its opening mark. -/
def quoted? (content : Content) (cs : List Char) : Option (List Char × List Char) :=
  quotedRest? content (cs.length + 1) cs

/-- The characters of a raw string up to a quotation mark with `hashes` hash signs. -/
def rawRest? (content : Content) (hashes : Nat) : List Char → Option (List Char × List Char)
  | [] => none
  | c :: cs =>
    if c = '"' && (cs.take hashes) == List.replicate hashes '#' then some ([], cs.drop hashes)
    else if (c = '\r' && cs.head? != some '\n') || !isPlainIn content c then none
    else (rawRest? content hashes cs).map fun (text, after) => (c :: text, after)

/-- A raw string behind the letters that open it; at most 255 hash signs. -/
def raw? (content : Content) (cs : List Char) : Option (List Char × List Char) :=
  let hashes := (cs.takeWhile (· = '#')).length
  match cs.drop hashes with
  | '"' :: rest => if hashes > 255 then none else rawRest? content hashes rest
  | _ => none

/-! ## Characters -/

/-- One character between apostrophes, behind the first of them. -/
def characterRest? (content : Content) : List Char → Option (Char × List Char)
  | [] => none
  | '\\' :: cs => do
    let (c, rest) ← escape? content cs
    match rest with
    | '\'' :: rest => return (c, rest)
    | _ => none
  | c :: '\'' :: rest => if isPlainIn content c then some (c, rest) else none
  | _ => none

/-! ## Numbers -/

/-- What follows the exponent of a number behind its letter: one sign before the first digit,
digits and underscores. -/
def exponentRest? (hasSign hasDigit : Bool) : List Char → Option (List Char)
  | [] => if hasDigit then some [] else none
  | c :: cs =>
    if c.isDigit then exponentRest? hasSign true cs
    else if c = '_' then exponentRest? hasSign hasDigit cs
    else if (c = '+' || c = '-') && !hasDigit then
      if hasSign then none else exponentRest? true hasDigit cs
    else if hasDigit then some (c :: cs)
    else none

/-- Whether a letter opens an exponent. -/
def isExponentMark (c : Char) : Bool := c = 'e' || c = 'E'

/-- A digit or an underscore. -/
def isDigitPart (c : Char) : Bool := c.isDigit || c = '_'

/-- What follows the digits, point and exponent of a decimal number; it has a point or an
exponent. -/
def decimalRest? (cs : List Char) : Option (List Char) :=
  if !cs.head?.any Char.isDigit then none
  else match cs.dropWhile isDigitPart with
    | '.' :: rest =>
      if rest.head?.any fun c => c = '.' || isIdentifierStart c then none
      else
        let rest := rest.dropWhile isDigitPart
        match rest with
        | c :: after =>
          if isExponentMark c then some ((exponentRest? false false after).getD rest) else some rest
        | [] => some []
    | c :: rest => if isExponentMark c then exponentRest? false false rest else none
    | [] => none

/-- What follows digits of `base`. Digits too large for the base end the number if they are
letters. -/
def digitsRest? (base : Nat) (isEmpty : Bool) : List Char → Option (List Char)
  | [] => if isEmpty then none else some []
  | c :: cs =>
    let stop := if isEmpty then none else some (c :: cs)
    if c = '_' then if isEmpty && base = 10 then none else digitsRest? base isEmpty cs
    else match digitValue? c with
      | some digit =>
        if digit < base then digitsRest? base false cs else if c.isDigit then none else stop
      | none => stop

/-- The base that the front of a number names, and what follows that mark. -/
def baseMark (cs : List Char) : Nat × List Char :=
  match cs with
  | '0' :: 'x' :: rest => (16, rest)
  | '0' :: 'o' :: rest => (8, rest)
  | '0' :: 'b' :: rest => (2, rest)
  | _ => (10, cs)

/-- What follows the digits of an integer. -/
def integerRest? (cs : List Char) : Option (List Char) :=
  if cs.head?.any Char.isDigit then digitsRest? (baseMark cs).1 true (baseMark cs).2 else none

/-- Whether the letters behind a whole number belong to an exponent. -/
def isExponent (cs : List Char) : Bool :=
  match cs.dropWhile isDigitPart with
  | [] => cs.any Char.isDigit
  | c :: rest =>
    c = '+' || c = '-' || (cs.takeWhile isDigitPart).any Char.isDigit && (identifier? (c :: rest)).isSome

/-- The value of a written integer, and its suffix. -/
def integerValue? (base : Nat) (hasDigit : Bool) (value : Nat) :
    List Char → Option (Nat × List Char)
  | [] => if hasDigit then some (value, []) else none
  | c :: cs =>
    let stop := if hasDigit then some (value, c :: cs) else none
    if c = '_' then integerValue? base hasDigit value cs
    else if c = '.' && base = 10 then none
    else if isExponentMark c && base = 10 then if isExponent cs then none else stop
    else match digitValue? c with
      | some digit =>
        if digit < 10 || base > 10 then
          if digit < base then integerValue? base true (value * base + digit) cs else none
        else stop
      | none => stop

/-- What has been seen of a decimal number. -/
structure DecimalState where
  hasPoint : Bool := false
  hasMark : Bool := false
  hasSign : Bool := false
  hasExponent : Bool := false

/-- The digits of a written decimal number: underscores and a plus sign dropped, `e` for the
exponent. A suffix ends them. -/
def decimalDigits? (s : DecimalState) : List Char → Option (List Char)
  | [] => if s.hasMark && !s.hasExponent then none else some []
  | c :: cs =>
    let stop := if s.hasMark && !s.hasExponent then none else some []
    if c = '_' then decimalDigits? s cs
    else if c.isDigit then
      (decimalDigits? { s with hasExponent := s.hasExponent || s.hasMark } cs).map (c :: ·)
    else if c = '.' then
      if s.hasMark || s.hasPoint then none
      else (decimalDigits? { s with hasPoint := true } cs).map (c :: ·)
    else if isExponentMark c then
      if (cs.dropWhile (· = '_')).head?.any fun d => d = '+' || d = '-' || d.isDigit then
        if s.hasMark then if s.hasExponent then stop else none
        else (decimalDigits? { s with hasMark := true } cs).map ('e' :: ·)
      else stop
    else if c = '+' || c = '-' then
      if s.hasSign || s.hasExponent || !s.hasMark then none
      else
        let rest := decimalDigits? { s with hasSign := true } cs
        if c = '-' then rest.map (c :: ·) else rest
    else stop

/-- What a written number stands for. -/
def numberValue (written : List Char) : Literal :=
  let (base, digits) := baseMark written
  match integerValue? base false 0 digits with
  | some (value, suffix) => .integer (toString value) (!suffix.isEmpty)
  | none =>
    match decimalDigits? {} written with
    | some digits => .decimal (String.ofList digits) (String.ofList written)
    | none => .other

/-- A number with its suffix; no character of an identifier follows. -/
def number? (cs : List Char) : Option (Literal × List Char) := do
  let finish (rest : List Char) : Option (List Char) :=
    let rest := dropSuffix rest
    if rest.head?.any isIdentifierPart then none else some rest
  let rest ← match (decimalRest? cs).bind finish with
    | some rest => some rest
    | none => (integerRest? cs).bind finish
  return (numberValue (cs.take (cs.length - rest.length)), rest)

/-! ## All literals -/

/-- The literal at the front, and what follows it. -/
def literal? (cs : List Char) : Option (Literal × List Char) :=
  let text (t : List Char × List Char) : Literal × List Char :=
    (.text (String.ofList t.1), dropSuffix t.2)
  let opaqueText (t : List Char × List Char) : Literal × List Char := (.other, dropSuffix t.2)
  match cs with
  | '"' :: rest => (quoted? .text rest).map text
  | 'r' :: rest => (raw? .text rest).map text
  | 'b' :: '"' :: rest => (quoted? .bytes rest).map opaqueText
  | 'b' :: 'r' :: rest => (raw? .bytes rest).map opaqueText
  | 'b' :: '\'' :: rest => (characterRest? .bytes rest).map fun (_, rest) => (.other, dropSuffix rest)
  | 'c' :: '"' :: rest => (quoted? .terminated rest).map opaqueText
  | 'c' :: 'r' :: rest => (raw? .terminated rest).map opaqueText
  | '\'' :: rest =>
    (characterRest? .text rest).map fun (c, rest) => (.character c, dropSuffix rest)
  | cs => number? cs

end ApiModels.Source
