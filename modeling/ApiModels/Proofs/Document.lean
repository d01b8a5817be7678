import ApiModels.Document
import ApiModels.Proofs.Data.Presentation
import ApiModels.Proofs.KeyedList

/-!
# What documents keep

A document is decoded from its tree: what is left out of the tree because it is absent is absent in
what is decoded, and everything else is there, in the same order (`Document.decode?_tree`). This
holds in every format that presents trees.

The models that a document was made of can be told from it (`Document.modelSet_ofModels`). An
enumeration has the type `string` in its schema, as other properties may have; it is the allowed
values, even if there are none, that tell it apart.
-/

namespace ApiModels

open ApiModels.Data

variable {V : Type} {format : Format V} {value : Data.Tree → V}

theorem PropertySchema.element?_tree (h : format.Presents value) (name : String) :
    element? format (value (.map [("$ref", .text name)])) = pure name := by
  have hfields : ["$ref"].mapM (Record.single? <| List.map (fun e => (e.1, value e.2))
      [("$ref", Data.Tree.text name)]) = some [some (value (.text name))] := by
    simp [Record.single?]
  rw [element?, h.fields? hfields, pure_bind, Fields.required_of_some rfl, h.text?]

theorem PropertySchema.decode?_tree (h : format.Presents value) (schema : PropertySchema) :
    decode? format (value schema.tree) = pure schema := by
  obtain ⟨type, description, values, element⟩ := schema
  have hfields : ["type", "description", "enum", "items"].mapM (Record.single? <| List.map
      (fun e => (e.1, value e.2)) ([("type", .text type)] ++
        (description.map fun text => ("description", Data.Tree.text text)).toList ++
        (values.map fun values => ("enum", Data.Tree.texts values)).toList ++
        (element.map fun name => ("items", Data.Tree.map [("$ref", .text name)])).toList)) =
      some [some (value (.text type)), description.map fun text => value (.text text),
        values.map fun values => value (.texts values),
        element.map fun name => value (.map [("$ref", .text name)])] := by
    cases description <;> cases values <;> cases element <;> simp [Record.single?]
  rw [decode?, tree, h.fields? hfields, pure_bind, Fields.required_of_some rfl, h.text?, pure_bind,
    h.optional rfl rfl h.text?, pure_bind, h.optional rfl rfl h.texts?, pure_bind,
    h.optional rfl rfl (element?_tree h), pure_bind]

theorem ModelSchema.decode?_tree (h : format.Presents value) (schema : ModelSchema) :
    decode? format (value schema.tree) = pure schema := by
  obtain ⟨id, properties⟩ := schema
  have hfields (properties : Data.Tree) : ["id", "properties"].mapM (Record.single? <| List.map
      (fun e => (e.1, value e.2)) [("id", .text id), ("properties", properties)]) =
      some [some (value (.text id)), some (value properties)] := by
    simp [Record.single?]
  rw [decode?, tree, h.fields? (hfields _), pure_bind, Fields.required_of_some rfl, h.text?,
    pure_bind, Fields.required_of_some rfl,
    h.mapOf fun p _ => PropertySchema.decode?_tree h p.2, pure_bind]

/-- A document is decoded from every presentation of its tree. -/
theorem Document.decode?_tree (h : format.Presents value) (d : Document) :
    decode? format (value d.tree) = pure d := by
  obtain ⟨swaggerVersion, apiVersion, basePath, models⟩ := d
  have hfields (models : Data.Tree) : ["swaggerVersion", "apiVersion", "basePath", "models"].mapM
      (Record.single? <| List.map (fun e => (e.1, value e.2))
        ([("swaggerVersion", .text swaggerVersion), ("apiVersion", .text apiVersion)] ++
          (basePath.map fun path => ("basePath", Data.Tree.text path)).toList ++
          [("models", models)])) =
      some [some (value (.text swaggerVersion)), some (value (.text apiVersion)),
        basePath.map fun path => value (.text path), some (value models)] := by
    cases basePath <;> simp [Record.single?]
  rw [decode?, tree, h.fields? (hfields _), pure_bind, Fields.required_of_some rfl, h.text?,
    pure_bind, Fields.required_of_some rfl, h.text?, pure_bind, h.optional rfl rfl h.text?,
    pure_bind, Fields.required_of_some rfl,
    h.mapOf fun p _ => ModelSchema.decode?_tree h p.2, pure_bind]

/-! ## The models of a document -/

/-- The property that a schema describes. -/
def PropertySchema.property (schema : PropertySchema) : Property :=
  let description := schema.description.getD ""
  match schema.values with
  | some values => .enumeration values description
  | none => .typed schema.type description schema.element

/-- The model that a schema describes. -/
def ModelSchema.model (schema : ModelSchema) : Model where
  id := schema.id
  properties := schema.properties.mapValues PropertySchema.property

/-- The models that a document describes. -/
def Document.modelSet (d : Document) : ModelSet :=
  .ofList (d.models.toList.map fun entry => entry.2.model)

/-- Several sets merged in order. -/
def ModelSet.merged (sets : List ModelSet) : ModelSet := sets.foldl merge .empty

theorem PropertySchema.getD_described (text : String) : (described text).getD "" = text := by
  unfold described
  split
  · rename_i hempty
    exact (String.isEmpty_iff.1 hempty).symm
  · rfl

theorem PropertySchema.property_ofProperty (p : Property) : (ofProperty p).property = p := by
  cases p with
  | enumeration values description =>
    exact congrArg (Property.enumeration values) (getD_described description)
  | typed typeName description element =>
    exact congrArg (Property.typed typeName · element) (getD_described description)

theorem ModelSchema.model_ofModel (m : Model) : (ofModel m).model = m := by
  obtain ⟨id, properties⟩ := m
  have hproperties : (properties.mapValues PropertySchema.ofProperty).mapValues
      PropertySchema.property = properties := by
    apply KeyedList.ext
    simp only [OrderedMap.mapValues, List.map_map]
    refine (List.map_congr_left fun p _ => ?_).trans (List.map_id _)
    simp only [Function.comp_apply, PropertySchema.property_ofProperty]
    rfl
  exact congrArg (Model.mk id) hproperties

namespace Document

variable {apiVersion : String} {basePath : Option String} {models : ModelSet}

theorem modelSet_ofModels : (ofModels apiVersion basePath models).modelSet = models := by
  have hlist : (ofModels apiVersion basePath models).models.toList.map (fun e => e.2.model) =
      models.toList := by
    simp only [ofModels, List.map_map]
    refine (List.map_congr_left fun m _ => ?_).trans (List.map_id _)
    exact ModelSchema.model_ofModel m
  rw [modelSet, hlist]
  exact KeyedList.ofList_toList models

theorem keys_ofModels : (ofModels apiVersion basePath models).models.keys = models.ids := by
  rw [KeyedList.keys, ofModels, List.map_map]
  rfl

theorem ids_ofModels :
    (ofModels apiVersion basePath models).models.toList.map (·.2.id) = models.ids := by
  rw [ofModels, List.map_map]
  rfl

theorem get?_ofModels (id : String) : (ofModels apiVersion basePath models).models.get? id =
    (KeyedList.find? models id).map ModelSchema.ofModel := by
  simp only [OrderedMap.get?, KeyedList.find?, ofModels, List.find?_map, Option.map_map]
  rfl

theorem merged_eq_ofList (sets : List ModelSet) :
    ModelSet.merged sets = .ofList (sets.flatMap (·.toList)) :=
  KeyedList.foldl_extend .empty sets

/-- A document has an entry under each id of the sets that it is made of, in the order in which the
ids first come up, and it is the schema of the first model with that id. The merged set can be told
from the document, so documents are equal only if their merged sets are. -/
theorem ofModels_merged (apiVersion : String) (basePath : Option String) (sets : List ModelSet) :
    let d := ofModels apiVersion basePath (ModelSet.merged sets)
    KeyedList.size d.models = KeyedList.size (ModelSet.merged sets) ∧
    d.models.keys = (ModelSet.merged sets).ids ∧
    d.models.keys = (sets.flatMap ModelSet.ids).eraseDups ∧
    d.models.toList.map (·.2.id) = d.models.keys ∧
    (∀ id, d.models.get? id =
      ((sets.flatMap (·.toList)).find? (·.id == id)).map ModelSchema.ofModel) ∧
    d.modelSet = ModelSet.merged sets ∧
    ∀ apiVersion' basePath' sets', ofModels apiVersion' basePath' (ModelSet.merged sets') = d ↔
      apiVersion' = apiVersion ∧ basePath' = basePath ∧
        ModelSet.merged sets' = ModelSet.merged sets := by
  intro d
  refine ⟨List.length_map .., keys_ofModels, ?_, ?_, fun id => ?_, modelSet_ofModels,
    fun apiVersion' basePath' sets' => ⟨fun h => ?_, ?_⟩⟩
  · rw [keys_ofModels, merged_eq_ofList]
    exact KeyedList.keys_ofList.trans (congrArg List.eraseDups List.map_flatMap)
  · rw [keys_ofModels, ids_ofModels]
  · rw [get?_ofModels, merged_eq_ofList, KeyedList.find?_ofList]
  · refine ⟨congrArg Document.apiVersion h, congrArg Document.basePath h, ?_⟩
    calc ModelSet.merged sets'
        = (ofModels apiVersion' basePath' (ModelSet.merged sets')).modelSet :=
          modelSet_ofModels.symm
      _ = d.modelSet := congrArg modelSet h
      _ = ModelSet.merged sets := modelSet_ofModels
  · rintro ⟨rfl, rfl, h⟩
    rw [h]

end Document

end ApiModels
