import ApiModels.Catalog
import ApiModels.Data.Encoding
import ApiModels.TypeRef.Parse

/-!
# Catalog files

The declarations of a catalog file, in any data format. A declaration without a kind is an
enumeration if it has constants; the constants of a class are dropped.
-/

namespace ApiModels.CatalogFile

open ApiModels.Data

variable {V : Type} (format : Format V)

/-- A type by its written form. -/
def typeRef? (v : V) : Decode TypeRef := TypeRef.parse <$> format.text? v

/-- An annotation. -/
def annotation? (v : V) : Decode Annotation := do
  let fields ← format.fields? ["name", "values"] v
  return {
    name := ← fields.required 0 format.text?
    values := ← fields.withDefault 1 .empty (format.mapOf format.text?) }

/-- A field. -/
def field? (v : V) : Decode Field := do
  let fields ← format.fields? ["name", "static", "type", "doc", "annotations"] v
  return {
    name := ← fields.required 0 format.text?
    isStatic := ← fields.withDefault 1 false format.truth?
    type := ← fields.required 2 (typeRef? format)
    doc := ← fields.withDefault 3 "" format.text?
    annotations := ← fields.withDefault 4 [] (format.listOf (annotation? format)) }

/-- A method. -/
def method? (v : V) : Decode Method := do
  let fields ← format.fields? ["name", "static", "returns", "return_doc", "annotations"] v
  return {
    name := ← fields.required 0 format.text?
    isStatic := ← fields.withDefault 1 false format.truth?
    returns := ← fields.required 2 (typeRef? format)
    returnDoc := ← fields.withDefault 3 none (format.optionalOf format.text?)
    annotations := ← fields.withDefault 4 [] (format.listOf (annotation? format)) }

/-- Whether an entry is an enumeration, if it says so. -/
def isEnumeration? (v : V) : Decode Bool := do
  match ← format.choice? v with
  | "class" => return false
  | "enum" => return true
  | _ => failure

/-- A declaration. -/
def declaration? (v : V) : Decode Declaration := do
  let fields ← format.fields?
    ["name", "kind", "superclass", "annotations", "fields", "methods", "constants"] v
  let name ← fields.required 0 format.text?
  let kind ← fields.withDefault 1 none (format.optionalOf (isEnumeration? format))
  let superclass ← fields.withDefault 2 none (format.optionalOf (typeRef? format))
  let annotations ← fields.withDefault 3 [] (format.listOf (annotation? format))
  let members ← fields.withDefault 4 [] (format.listOf (field? format))
  let methods ← fields.withDefault 5 [] (format.listOf (method? format))
  let constants ← fields.withDefault 6 [] format.texts?
  return {
    name, superclass, annotations, methods
    kind := if kind.getD (!constants.isEmpty) then .enumeration constants else .plain
    fields := members }

/-- The declarations of a catalog file, repeated names included. -/
def declarations? (v : V) : Decode (List Declaration) := do
  let fields ← format.fields? ["types"] v
  fields.withDefault 0 [] (format.listOf (declaration? format))

/-- The catalog of a catalog file. -/
def catalog? (v : V) : Decode Catalog := .ofList <$> declarations? format v

/-- The catalog that a text holds. -/
def read (encoding : Encoding) (text : String) : Except Error Catalog :=
  encoding.read catalog? text

end ApiModels.CatalogFile
