import ApiModels.Data.Format
import ApiModels.Data.Tree
import ApiModels.Error
import ApiModels.Json.Format
import ApiModels.Json.Reader
import ApiModels.Json.Writer
import ApiModels.Yaml.Format
import ApiModels.Yaml.Writer

/-!
# Encodings of data

The two data formats as texts: reading a text with a decoder, and writing a tree.
-/

namespace ApiModels.Data

/-- A way to write data as text. -/
inductive Encoding where
  | json
  | yaml
deriving DecidableEq, Repr, Inhabited

namespace Encoding

/-- The name of the encoding in messages. -/
def label : Encoding → String
  | .json => "JSON"
  | .yaml => "YAML"

/-- What a decoder finds in a text. -/
def read? {α : Type} (encoding : Encoding) (decode : {V : Type} → Format V → V → Decode α)
    (text : String) : Option α :=
  match encoding with
  | .json => do Json.decode? decode (← Json.read? text)
  | .yaml => do Yaml.Document.decode? decode (← Yaml.read? text)

/-- The text of a tree. -/
def render : Encoding → Tree → String
  | .json => Json.render
  | .yaml => Yaml.render

/-- The error for a text that cannot be read. -/
def error (encoding : Encoding) : Error :=
  .serialization (encoding.label ++ ": " ++ Error.malformed)

/-- What a decoder finds in a text, or the error. -/
def read {α : Type} (encoding : Encoding) (decode : {V : Type} → Format V → V → Decode α)
    (text : String) : Except Error α :=
  match encoding.read? decode text with
  | some a => .ok a
  | none => .error encoding.error

end Encoding

end ApiModels.Data
