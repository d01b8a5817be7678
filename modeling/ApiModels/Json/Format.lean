import ApiModels.Data.Format
import ApiModels.Json.Value

/-!
# JSON values as data

A text is a string, a list an array, a map an object; a record is an object or an array of its
fields; an absent value is `null`; a word is a string, or an object with the word as its only name
and `null` as the value.
-/

namespace ApiModels.Json

open ApiModels.Data

/-- What JSON values can be taken for. -/
def format : Format Value where
  text?
    | .text value => pure value
    | _ => failure
  truth?
    | .bool value => pure value
    | _ => failure
  items?
    | .list items => pure items
    | _ => failure
  entries?
    | .object entries => pure entries
    | _ => failure
  record?
    | .object entries => pure (.named entries)
    | .list items => pure (.positional items)
    | _ => failure
  optional?
    | .null => pure none
    | value => pure (some value)
  choice?
    | .text value => pure value
    | .object [(name, .null)] => pure name
    | _ => failure

/-- What a decoder finds in a value; no value refers to another place. -/
def decode? {α : Type} (decoder : Format Value → Value → Decode α) (v : Value) : Option α :=
  (decoder format v).within? 0

end ApiModels.Json
