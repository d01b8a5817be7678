/-!
# Words with a meaning of their own

Plain scalars that stand for something other than text: nulls, booleans and numbers.
-/

namespace ApiModels.Yaml

/-- The words for an absent value. -/
def isNullWord (word : String) : Bool := ["null", "Null", "NULL", "~"].contains word

/-- The truth value that a word stands for. -/
def truth? (word : String) : Option Bool :=
  if ["true", "True", "TRUE"].contains word then some true
  else if ["false", "False", "FALSE"].contains word then some false
  else none

/-- The value of a digit in bases up to sixteen. -/
def digitValue? (c : Char) : Option Nat :=
  if '0' ≤ c ∧ c ≤ '9' then some (c.toNat - '0'.toNat)
  else if 'a' ≤ c ∧ c ≤ 'f' then some (c.toNat - 'a'.toNat + 10)
  else if 'A' ≤ c ∧ c ≤ 'F' then some (c.toNat - 'A'.toNat + 10)
  else none

/-- The number that digits of `base` denote; `none` without digits or with a digit too large. -/
def natural? (base : Nat) : List Char → Option Nat
  | [] => none
  | cs => cs.foldl (fun value c => do
      let sum ← value
      let digit ← digitValue? c
      if digit < base then some (sum * base + digit) else none) (some 0)

/-- Drops one sign. -/
def dropSign : List Char → List Char
  | '+' :: cs => cs
  | '-' :: cs => cs
  | cs => cs

/-- Zero followed by digits only: a text although it has nothing but digits. -/
def isPaddedZero (word : List Char) : Bool :=
  match dropSign word with
  | '0' :: c :: cs => (c :: cs).all Char.isDigit
  | _ => false

/-- The magnitude of an integer without sign, in base ten or with a base mark. -/
def magnitude? : List Char → Option Nat
  | '0' :: 'x' :: digits => natural? 16 digits
  | '0' :: 'o' :: digits => natural? 8 digits
  | '0' :: 'b' :: digits => natural? 2 digits
  | digits => natural? 10 digits

/-- Integers of 128 bits. -/
def isInteger (word : List Char) : Bool :=
  match word with
  | '-' :: digits => (magnitude? digits).any (· ≤ Nat.pow 2 127)
  | '+' :: digits => (magnitude? digits).any (· < Nat.pow 2 128)
  | digits => (magnitude? digits).any (· < Nat.pow 2 128)

/-- The bound from which on a decimal number is rounded to infinity. -/
def floatBound : Nat := Nat.pow 2 1024 - Nat.pow 2 970

/-- Whether `digits` times ten to the power of `scale` is below the bound. -/
def isFiniteDecimal (digits : List Char) (scale : Int) : Bool :=
  let significant := digits.dropWhile (· = '0')
  let size : Int := significant.length + scale
  if significant.isEmpty then true
  else if size > 310 then false
  else if size < 300 then true
  else
    let value := (natural? 10 significant).getD 0
    if scale ≥ 0 then value * Nat.pow 10 scale.toNat < floatBound
    else value < floatBound * Nat.pow 10 (-scale).toNat

/-- The exponent after a mark: an optional sign and digits to the end. -/
def exponent? : List Char → Option Int
  | '-' :: digits => (natural? 10 digits).map fun n => -(n : Int)
  | '+' :: digits => (natural? 10 digits).map fun n => (n : Int)
  | digits => (natural? 10 digits).map fun n => (n : Int)

/-- Decimal numbers without sign whose double is finite: digits with at most one point and at least
one digit, and an optional exponent. -/
def isFiniteFloat (word : List Char) : Bool :=
  let whole := word.takeWhile Char.isDigit
  let rest := word.dropWhile Char.isDigit
  let fraction := match rest with
    | '.' :: cs => cs.takeWhile Char.isDigit
    | _ => []
  let rest := match rest with
    | '.' :: cs => cs.dropWhile Char.isDigit
    | cs => cs
  if (whole ++ fraction).isEmpty then false
  else match rest with
    | [] => isFiniteDecimal (whole ++ fraction) (-fraction.length)
    | c :: cs =>
      if c = 'e' || c = 'E' then
        match exponent? cs with
        | some e => isFiniteDecimal (whole ++ fraction) (e - fraction.length)
        | none => false
      else false

/-- Numbers with a point or an exponent, and the words for infinity and not-a-number. -/
def isFloat (word : List Char) : Bool :=
  let infinities := [".inf".toList, ".Inf".toList, ".INF".toList]
  infinities.contains (dropSign word) ||
    [".nan".toList, ".NaN".toList, ".NAN".toList].contains word ||
    isFiniteFloat (dropSign word)

/-- Whether a plain scalar would not be read as the text that it is. -/
def hasMeaning (word : String) : Bool :=
  let cs := word.toList
  cs.isEmpty || isNullWord word || (truth? word).isSome || isPaddedZero cs || isInteger cs ||
    isFloat cs

end ApiModels.Yaml
