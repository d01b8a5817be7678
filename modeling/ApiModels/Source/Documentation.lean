import ApiModels.Source.Tree
import ApiModels.Text.Blank
import ApiModels.Text.Lines

/-!
# Documentation in source files

Documentation comments are attributes with a text. Their lines make up the documentation of a field;
for a method, a part of them tells what it returns.
-/

namespace ApiModels.Source

open ApiModels.Text

/-- The text that a literal stands for. -/
def Literal.text? : Literal → Option String
  | .text value => some value
  | .integer digits _ => some digits
  | .decimal digits _ => some digits
  | .character value => some (String.singleton value)
  | .truth value => some (if value then "true" else "false")
  | .other => none

/-- The text of names joined by pairs of colons. -/
def pathText (path : List Identifier) : String := "::".intercalate (path.map (·.text))

/-- Whether an attribute is documentation. -/
def Attribute.isDoc (a : Attribute) : Bool := !a.isAbsolute && a.path == [⟨"doc", false⟩]

/-- The text of documentation. -/
def Attribute.docText? (a : Attribute) : Option String :=
  match a.isDoc, a.form with
  | true, .value literal => literal.bind Literal.text?
  | _, _ => none

/-- Drops one space at the front. -/
def dropSpace (line : String) : String :=
  match line.toList with
  | ' ' :: cs => String.ofList cs
  | _ => line

/-- The lines of the documentation, each without one space at its front. -/
def docLines (attributes : List Attribute) : List String :=
  (attributes.filterMap Attribute.docText?).flatMap fun text => (lines text).map dropSpace

/-- The lines of the documentation as one text. -/
def docText (attributes : List Attribute) : String :=
  trim ("\n".intercalate (docLines attributes))

/-! ## What a method returns -/

/-- What follows `front` at the front of `text`. -/
def textBehind? (front text : String) : Option String :=
  if front.toList.isPrefixOf text.toList then some (String.ofList (text.toList.drop front.length))
  else none

/-- The rest of a line that begins with the mark for what is returned. -/
def returnLine? (line : String) : Option String := (textBehind? "@return" (trim line)).map trim

/-- Whether a line is the heading over what is returned, in any case of its letters. -/
def isReturnHeading (line : String) : Bool :=
  (trim line).toList.map Char.toLower == "# returns".toList

/-- The first lines that are neither blank nor headings, behind blank ones. -/
def paragraph (lines : List String) : List String :=
  ((lines.map trim).dropWhile String.isEmpty).takeWhile fun line =>
    !line.isEmpty && line.toList.head? != some '#'

/-- What the documentation says of the value that a method returns: the rest of a marked line, or
else the paragraph under the heading. -/
def returnDoc? (lines : List String) : Option String :=
  match lines.findSome? returnLine? with
  | some text => some text
  | none =>
    match lines.dropWhile (!isReturnHeading ·) with
    | [] => none
    | _ :: rest =>
      let found := paragraph rest
      if found.isEmpty then none else some (" ".intercalate found)

end ApiModels.Source
