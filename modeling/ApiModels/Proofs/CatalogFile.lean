import ApiModels.CatalogFile
import ApiModels.Proofs.Data.Presentation
import ApiModels.Proofs.Yaml.RoundTrip

/-!
# Catalogs written as catalog files

A catalog is written as a value of any data format whose values can be built: each type by its
written form, everything that has a value under its own name. If all its types are read back from
their written forms, the catalog is loaded from that value (`CatalogFile.catalog?_value`), and so
from every text that holds it (`CatalogFile.read_of_holds`).
-/

namespace ApiModels

open ApiModels.Data

/-- The types that a declaration names itself. -/
def Declaration.types (d : Declaration) : List TypeRef :=
  d.superclass.toList ++ (d.fields.map (·.type) ++ d.methods.map (·.returns))

namespace Data

/-- Values of a format that can be taken for what they are built from. -/
structure Builder {V : Type} (format : Format V) where
  text : String → V
  truth : Bool → V
  list : List V → V
  map : List (String × V) → V
  text?_text : ∀ s, format.text? (text s) = pure s
  choice?_text : ∀ s, format.choice? (text s) = pure s
  optional?_text : ∀ s, format.optional? (text s) = pure (some (text s))
  truth?_truth : ∀ b, format.truth? (truth b) = pure b
  items?_list : ∀ values, format.items? (list values) = pure values
  entries?_map : ∀ entries, format.entries? (map entries) = pure entries
  record?_map : ∀ entries, format.record? (map entries) = pure (.named entries)

variable {V α : Type} {format : Format V} {fields : Fields V} {index : Nat} {default : α}
  {decode : V → Decode α} {v : V}

theorem Fields.withDefault_of_some (h : fields.get? index = some v) :
    fields.withDefault index default decode = decode v := by
  rw [withDefault, h]

namespace Builder

variable (b : Builder format) {names : List String} {entries : List (String × V)}
  {found : List (Option V)} {encode : α → V}

theorem fields? (h : names.mapM (Record.single? entries) = some found) :
    format.fields? names (b.map entries) = pure ⟨found, false⟩ := by
  rw [Format.fields?, b.record?_map, pure_bind, Record.fields?, h]
  rfl

theorem listOf {as : List α} (h : ∀ a ∈ as, decode (encode a) = pure a) :
    format.listOf decode (b.list (as.map encode)) = pure as := by
  rw [Format.listOf, b.items?_list, pure_bind]
  exact mapM_map_eq_pure h

theorem texts? (texts : List String) : format.texts? (b.list (texts.map b.text)) = pure texts :=
  b.listOf fun text _ => b.text?_text text

theorem mapOf_texts (m : OrderedMap String) :
    format.mapOf format.text? (b.map (m.toList.map fun p => (p.1, b.text p.2))) = pure m := by
  rw [Format.mapOf, b.entries?_map, pure_bind, mapM_map_eq_pure, pure_bind]
  · exact congrArg pure (KeyedList.ofListLast_toList m)
  · intro p _
    change (do return (p.1, ← format.text? (b.text p.2))) = pure p
    rw [b.text?_text]
    rfl

theorem optionalOf {s : String} {a : α} (h : decode (b.text s) = pure a) :
    format.optionalOf decode (b.text s) = pure (some a) := by
  rw [Format.optionalOf, b.optional?_text, pure_bind]
  change (do return some (← decode (b.text s))) = _
  rw [h]
  rfl

/-- A field that is left out where it is absent, and is a text otherwise. -/
theorem withDefault_optional {a : Option α} {text : α → String}
    (hget : fields.get? index = a.map fun x => b.text (text x))
    (h : ∀ x ∈ a, decode (b.text (text x)) = pure x) :
    fields.withDefault index none (format.optionalOf decode) = pure a := by
  cases a with
  | none =>
    rw [Fields.withDefault, hget]
    rfl
  | some x =>
    rw [Fields.withDefault_of_some hget]
    exact b.optionalOf (h x rfl)

end Builder

end Data

/-- JSON values. -/
def Json.builder : Builder Json.format where
  text := .text
  truth := .bool
  list := .list
  map := .object
  text?_text _ := rfl
  choice?_text _ := rfl
  optional?_text _ := rfl
  truth?_truth _ := rfl
  items?_list _ := rfl
  entries?_map _ := rfl
  record?_map _ := rfl

theorem Yaml.Document.entries?_mapping (d : Yaml.Document) (entries : List (String × Yaml.Node)) :
    d.entries? (.mapping none (entries.map fun e => (.ofText e.1, e.2))) = pure entries := by
  have hkey : ∀ e : String × Yaml.Node, (do
      return (← (← d.settle (.ofText e.1)).text?, e.2) : Decode (String × Yaml.Node)) = pure e :=
    fun _ => rfl
  exact mapM_map_eq_pure fun e _ => hkey e

theorem Yaml.Document.truth?_scalar (d : Yaml.Document) (value : Bool) :
    d.format.truth? (.scalar .plain none (if value then "true" else "false")) = pure value := by
  have htruth : Yaml.truth? (if value then "true" else "false") = some value := by
    cases value <;> decide +kernel
  change (Yaml.truth? (if value then "true" else "false") : Decode Bool) = _
  rw [htruth]
  rfl

/-- YAML nodes; each text is written in the style that it needs. -/
def Yaml.Document.builder (d : Yaml.Document) : Builder d.format where
  text := .ofText
  truth value := .scalar .plain none (if value then "true" else "false")
  list := .sequence none
  map entries := .mapping none (entries.map fun e => (.ofText e.1, e.2))
  text?_text _ := rfl
  choice?_text _ := rfl
  optional?_text s := by
    change (do (← d.settle (.ofText s)).optional? : Decode (Option Yaml.Node)) = _
    have hsettle : d.settle (.ofText s) = pure (.ofText s) := rfl
    rw [hsettle, pure_bind, Yaml.Node.optional?_ofText]
    rfl
  truth?_truth := d.truth?_scalar
  items?_list _ := rfl
  entries?_map entries := by
    change d.entries? (.mapping none (entries.map fun e => (.ofText e.1, e.2))) = _
    exact d.entries?_mapping entries
  record?_map entries := by
    change Record.named <$> d.entries? (.mapping none (entries.map fun e => (.ofText e.1, e.2))) = _
    rw [d.entries?_mapping, map_pure]

/-! ## Written catalogs -/

namespace CatalogFile

variable {V : Type} {format : Format V} (b : Builder format)

def typeValue (t : TypeRef) : V := b.text t.display

def annotationValue (a : Annotation) : V :=
  b.map [("name", b.text a.name),
    ("values", b.map (a.values.toList.map fun p => (p.1, b.text p.2)))]

def fieldValue (f : Field) : V :=
  b.map [("name", b.text f.name), ("static", b.truth f.isStatic), ("type", typeValue b f.type),
    ("doc", b.text f.doc), ("annotations", b.list (f.annotations.map (annotationValue b)))]

/-- A method; documentation that is absent is left out. -/
def methodValue (m : Method) : V :=
  b.map ([("name", b.text m.name), ("static", b.truth m.isStatic),
      ("returns", typeValue b m.returns)] ++
    (m.returnDoc.map fun doc => ("return_doc", b.text doc)).toList ++
    [("annotations", b.list (m.annotations.map (annotationValue b)))])

def kindWord (d : Declaration) : String := if d.isEnumeration then "enum" else "class"

/-- A declaration; a superclass that is absent is left out. -/
def declarationValue (d : Declaration) : V :=
  b.map ([("name", b.text d.name), ("kind", b.text (kindWord d))] ++
    (d.superclass.map fun t => ("superclass", typeValue b t)).toList ++
    [("annotations", b.list (d.annotations.map (annotationValue b))),
      ("fields", b.list (d.fields.map (fieldValue b))),
      ("methods", b.list (d.methods.map (methodValue b))),
      ("constants", b.list (d.constants.map b.text))])

/-- The value that a catalog is written as. -/
def catalogValue (c : Catalog) : V :=
  b.map [("types", b.list (c.declarations.map (declarationValue b)))]

variable {t : TypeRef} {f : Field} {m : Method} {d : Declaration} {c : Catalog}

theorem typeRef?_value (h : TypeRef.parse t.display = t) :
    typeRef? format (typeValue b t) = pure t := by
  rw [typeRef?, typeValue, b.text?_text, map_pure, h]

theorem annotation?_value (a : Annotation) :
    annotation? format (annotationValue b a) = pure a := by
  obtain ⟨name, values⟩ := a
  rw [annotation?, annotationValue, b.fields? (by simp [Record.single?]; rfl), pure_bind,
    Fields.required_of_some rfl, b.text?_text, pure_bind, Fields.withDefault_of_some rfl,
    b.mapOf_texts, pure_bind]

theorem annotations?_value (annotations : List Annotation) :
    format.listOf (annotation? format) (b.list (annotations.map (annotationValue b))) =
      pure annotations :=
  b.listOf fun a _ => annotation?_value b a

theorem field?_value (h : TypeRef.parse f.type.display = f.type) :
    field? format (fieldValue b f) = pure f := by
  obtain ⟨name, isStatic, type, doc, annotations⟩ := f
  rw [field?, fieldValue, b.fields? (by simp [Record.single?]; rfl), pure_bind,
    Fields.required_of_some rfl, b.text?_text, pure_bind, Fields.withDefault_of_some rfl,
    b.truth?_truth, pure_bind, Fields.required_of_some rfl, typeRef?_value b h, pure_bind,
    Fields.withDefault_of_some rfl, b.text?_text, pure_bind, Fields.withDefault_of_some rfl,
    annotations?_value, pure_bind]

theorem method?_value (h : TypeRef.parse m.returns.display = m.returns) :
    method? format (methodValue b m) = pure m := by
  obtain ⟨name, isStatic, returns, returnDoc, annotations⟩ := m
  have hfields (returns annotations : V) :
      ["name", "static", "returns", "return_doc", "annotations"].mapM (Record.single? <|
        [("name", b.text name), ("static", b.truth isStatic), ("returns", returns)] ++
          (returnDoc.map fun doc => ("return_doc", b.text doc)).toList ++
          [("annotations", annotations)]) =
      some [some (b.text name), some (b.truth isStatic), some returns,
        returnDoc.map fun doc => b.text doc, some annotations] := by
    cases returnDoc <;> simp [Record.single?]
  rw [method?, methodValue, b.fields? (hfields ..), pure_bind, Fields.required_of_some rfl,
    b.text?_text, pure_bind, Fields.withDefault_of_some rfl, b.truth?_truth, pure_bind,
    Fields.required_of_some rfl, typeRef?_value b h, pure_bind,
    b.withDefault_optional rfl fun doc _ => b.text?_text doc, pure_bind,
    Fields.withDefault_of_some rfl, annotations?_value, pure_bind]

theorem isEnumeration?_kindWord (d : Declaration) :
    isEnumeration? format (b.text (kindWord d)) = pure d.isEnumeration := by
  rw [isEnumeration?, b.choice?_text, pure_bind, kindWord]
  cases d.isEnumeration <;> rfl

/-- The kind of a declaration is known by its word and its constants. -/
theorem kind_eq (d : Declaration) :
    (if d.isEnumeration then Kind.enumeration d.constants else .plain) = d.kind := by
  obtain ⟨_, kind, _, _, _, _⟩ := d
  cases kind <;> rfl

theorem declaration?_value (h : ∀ t ∈ d.types, TypeRef.parse t.display = t) :
    declaration? format (declarationValue b d) = pure d := by
  have hsuperclass : ∀ t ∈ d.superclass, TypeRef.parse t.display = t := by
    intro t ht
    exact h t (List.mem_append_left _ (Option.mem_toList.2 ht))
  have hmembers : ∀ f ∈ d.fields, field? format (fieldValue b f) = pure f := by
    intro f hf
    apply field?_value
    exact h _ (List.mem_append_right _ (List.mem_append_left _ (List.mem_map_of_mem hf)))
  have hmethods : ∀ m ∈ d.methods, method? format (methodValue b m) = pure m := by
    intro m hm
    apply method?_value
    exact h _ (List.mem_append_right _ (List.mem_append_right _ (List.mem_map_of_mem hm)))
  have hfields (name kind annotations fields methods constants : V) :
      ["name", "kind", "superclass", "annotations", "fields", "methods", "constants"].mapM
        (Record.single? <| [("name", name), ("kind", kind)] ++
          (d.superclass.map fun t => ("superclass", typeValue b t)).toList ++
          [("annotations", annotations), ("fields", fields), ("methods", methods),
            ("constants", constants)]) =
      some [some name, some kind, d.superclass.map fun t => typeValue b t, some annotations,
        some fields, some methods, some constants] := by
    cases d.superclass <;> simp [Record.single?]
  rw [declaration?, declarationValue, b.fields? (hfields ..), pure_bind,
    Fields.required_of_some rfl, b.text?_text, pure_bind, Fields.withDefault_of_some rfl,
    b.optionalOf (isEnumeration?_kindWord b d), pure_bind,
    b.withDefault_optional rfl fun t ht => typeRef?_value b (hsuperclass t ht), pure_bind,
    Fields.withDefault_of_some rfl, annotations?_value, pure_bind,
    Fields.withDefault_of_some rfl, b.listOf hmembers, pure_bind,
    Fields.withDefault_of_some rfl, b.listOf hmethods, pure_bind,
    Fields.withDefault_of_some rfl, b.texts?, pure_bind, Option.getD_some, kind_eq]

/-- A catalog whose types are read back from their written forms is loaded from the value that it
is written as. -/
theorem catalog?_value
    (h : ∀ d ∈ c.declarations, ∀ t ∈ d.types, TypeRef.parse t.display = t) :
    catalog? format (catalogValue b c) = pure c := by
  have hdeclarations :
      format.listOf (declaration? format) (b.list (c.declarations.map (declarationValue b))) =
        pure c.declarations :=
    b.listOf fun d hd => declaration?_value b (h d hd)
  rw [catalog?, declarations?, catalogValue, b.fields? (by simp [Record.single?]; rfl), pure_bind,
    Fields.withDefault_of_some rfl, hdeclarations, map_pure, KeyedList.ofList_toList]

/-- The text holds the value that the catalog is written as. -/
def Holds (encoding : Encoding) (text : String) (c : Catalog) : Prop :=
  match encoding with
  | .json => Json.read? text = some (catalogValue Json.builder c)
  | .yaml => ∃ document, Yaml.read? text = some document ∧
      document.root = catalogValue document.builder c

/-- A text that holds a catalog is loaded as that catalog. -/
theorem read_of_holds {encoding : Encoding} {text : String} (htext : Holds encoding text c)
    (h : ∀ d ∈ c.declarations, ∀ t ∈ d.types, TypeRef.parse t.display = t) :
    read encoding text = .ok c := by
  have hfound : encoding.read? catalog? text = some c := by
    cases encoding with
    | json =>
      have hread : Json.read? text = some (catalogValue Json.builder c) := htext
      rw [Encoding.read?, hread]
      change Json.decode? catalog? (catalogValue Json.builder c) = some c
      rw [Json.decode?, catalog?_value _ h]
      rfl
    | yaml =>
      obtain ⟨document, hread, hroot⟩ := htext
      rw [Encoding.read?, hread]
      change Yaml.Document.decode? catalog? document = some c
      rw [Yaml.Document.decode?, hroot, catalog?_value _ h]
      rfl
  rw [read, Encoding.read, hfound]

end CatalogFile

end ApiModels
