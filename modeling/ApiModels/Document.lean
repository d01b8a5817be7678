import ApiModels.Data.Format
import ApiModels.Data.Tree
import ApiModels.Model

/-!
# Definitions documents

The document that a run writes: the models by id, each with the schemas of its properties, under a
version and an optional base path. A document is made from a model set, written as a tree of texts,
and read back from any data format.
-/

namespace ApiModels

open ApiModels.Data

/-- The schema of a property: its type, and what is known besides. -/
structure PropertySchema where
  type : String
  description : Option String := none
  /-- The allowed values of an enumeration. -/
  values : Option (List String) := none
  /-- The element type of a container. -/
  element : Option String := none
deriving DecidableEq, Repr, Inhabited

/-- The schema of a model. -/
structure ModelSchema where
  id : String
  properties : OrderedMap PropertySchema := .empty
deriving DecidableEq, Repr, Inhabited

/-- A definitions document. -/
structure Document where
  swaggerVersion : String := "1.2"
  apiVersion : String := "1.0.0"
  basePath : Option String := none
  models : OrderedMap ModelSchema := .empty
deriving DecidableEq, Repr, Inhabited

namespace PropertySchema

/-- A description unless it is empty. -/
def described (text : String) : Option String := if text.isEmpty then none else some text

/-- The schema of a property; an enumeration has the type `string`. -/
def ofProperty : Property → PropertySchema
  | .enumeration values description =>
    { type := "string", description := described description, values := some values }
  | .typed typeName description element =>
    { type := typeName, description := described description, element := element }

/-- The schema as a tree; what is not there is left out. -/
def tree (schema : PropertySchema) : Tree :=
  .map ([("type", .text schema.type)] ++
    (schema.description.map fun text => ("description", .text text)).toList ++
    (schema.values.map fun values => ("enum", .texts values)).toList ++
    (schema.element.map fun name => ("items", .map [("$ref", .text name)])).toList)

/-- The element type in the reference that stands for it. -/
def element? {V : Type} (format : Format V) (v : V) : Decode String := do
  (← format.fields? ["$ref"] v).required 0 format.text?

/-- The schema that a value holds. -/
def decode? {V : Type} (format : Format V) (v : V) : Decode PropertySchema := do
  let fields ← format.fields? ["type", "description", "enum", "items"] v
  return {
    type := ← fields.required 0 format.text?
    description := ← fields.optional 1 (format.optionalOf format.text?)
    values := ← fields.optional 2 (format.optionalOf format.texts?)
    element := ← fields.optional 3 (format.optionalOf (element? format)) }

end PropertySchema

namespace ModelSchema

/-- The schema of a model. -/
def ofModel (m : Model) : ModelSchema where
  id := m.id
  properties := m.properties.mapValues .ofProperty

/-- The schema as a tree. -/
def tree (schema : ModelSchema) : Tree :=
  .map [("id", .text schema.id),
    ("properties", .map (schema.properties.toList.map fun (name, p) => (name, p.tree)))]

/-- The schema that a value holds. -/
def decode? {V : Type} (format : Format V) (v : V) : Decode ModelSchema := do
  let fields ← format.fields? ["id", "properties"] v
  return {
    id := ← fields.required 0 format.text?
    properties := ← fields.required 1 (format.mapOf (PropertySchema.decode? format)) }

end ModelSchema

namespace Document

/-- The document of a model set: each model under its own id. -/
def ofModels (apiVersion : String) (basePath : Option String) (models : ModelSet) : Document where
  apiVersion := apiVersion
  basePath := basePath
  models :=
    { toList := models.toList.map fun m => (m.id, .ofModel m)
      nodup := by
        have h := models.nodup
        simp only [List.map_map]
        exact h }

/-- The document as a tree. -/
def tree (d : Document) : Tree :=
  .map ([("swaggerVersion", .text d.swaggerVersion), ("apiVersion", .text d.apiVersion)] ++
    (d.basePath.map fun path => ("basePath", .text path)).toList ++
    [("models", .map (d.models.toList.map fun (id, m) => (id, m.tree)))])

/-- The document that a value holds. -/
def decode? {V : Type} (format : Format V) (v : V) : Decode Document := do
  let fields ← format.fields? ["swaggerVersion", "apiVersion", "basePath", "models"] v
  return {
    swaggerVersion := ← fields.required 0 format.text?
    apiVersion := ← fields.required 1 format.text?
    basePath := ← fields.optional 2 (format.optionalOf format.text?)
    models := ← fields.required 3 (format.mapOf (ModelSchema.decode? format)) }

end Document

end ApiModels
