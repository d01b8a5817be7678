/-!
# Trees of text

The data that documents and options are written as: texts, lists of texts, and maps.
-/

namespace ApiModels.Data

/-- A text, a list of texts, or a map with its entries in order. -/
inductive Tree where
  | text (value : String)
  | texts (values : List String)
  | map (entries : List (String × Tree))
deriving Repr, Inhabited

end ApiModels.Data
