/-!
# JSON values

Values as they are read from a text: objects keep their entries in order and repeated names; the
magnitude of a number is of no use to any reader here and is not kept. Neither is a text that no
string can hold: a value with such a text can only be passed over.
-/

namespace ApiModels.Json

/-- A value read from a text. -/
inductive Value where
  | null
  | bool (value : Bool)
  | number
  | text (value : String)
  | list (items : List Value)
  | object (entries : List (String × Value))
  /-- A text with half of a surrogate pair, or an object with such a name. -/
  | broken
deriving Repr, Inhabited

end ApiModels.Json
