/-!
# Lines of a text

A line ends at a line feed; a carriage return before the line feed belongs to the line's end.
A text that ends in a line feed has no empty last line.
-/

namespace ApiModels.Text

/-- Cuts `cs` at every `sep`, keeping empty parts; there is always at least one part. -/
def splitChars (sep : Char) : List Char → List (List Char)
  | [] => [[]]
  | c :: cs =>
    if c = sep then [] :: splitChars sep cs
    else match splitChars sep cs with
      | [] => [[c]]
      | part :: parts => (c :: part) :: parts

/-- Drops one carriage return at the end. -/
def dropFinalReturn (line : List Char) : List Char :=
  match line.reverse with
  | '\r' :: rest => rest.reverse
  | _ => line

/-- The lines of a text, without their line ends. -/
def lineChars (cs : List Char) : List (List Char) :=
  match (splitChars '\n' cs).reverse with
  | [] => []
  | last :: earlier =>
    let lines := earlier.reverse.map dropFinalReturn
    if last.isEmpty then lines else lines ++ [last]

/-- The lines of a text, without their line ends. -/
def lines (text : String) : List String := (lineChars text.toList).map String.ofList

end ApiModels.Text
