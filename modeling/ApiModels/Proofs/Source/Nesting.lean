import ApiModels.Proofs.Source.Resolution
import ApiModels.Source.File

/-!
# Types in modules

Resolution does not enter modules. A type that stands in one, at whatever depth, is known only if an
item at the outer level of some file has its name (`Source.typeNames_declared_iff`), and then what is
declared is that item.
-/

namespace ApiModels.Source

namespace Item

mutual
/-- The names of the types that an item declares, those in modules at any depth included. -/
def typeNames : Item → List String
  | .module _ items => typeNamesOf items
  | .structure s => [s.name.text]
  | .enumeration e => [e.name.text]
  | .implementation _ => []
  | .other => []

/-- The names of the types that items declare. -/
def typeNamesOf : List Item → List String
  | [] => []
  | item :: items => typeNames item ++ typeNamesOf items
end

/-- Whether an item is a module. -/
def isModule : Item → Bool
  | .module .. => true
  | _ => false

end Item

variable {files : List (List Item)} {items : List Item} {item : Item} {m : Identifier}
  {name : String}

theorem Item.typeNamesOf_eq_flatMap (items : List Item) :
    typeNamesOf items = items.flatMap typeNames := by
  induction items with
  | nil => rfl
  | cons item items ih => rw [typeNamesOf, ih, List.flatMap_cons]

theorem Item.mem_typeNames_module : name ∈ (Item.module m items).typeNames ↔
    ∃ item ∈ items, name ∈ item.typeNames := by
  rw [typeNames, typeNamesOf_eq_flatMap, List.mem_flatMap]

/-- An item at the outer level declares a type only if it is no module. -/
theorem Item.declared?_eq_some_iff :
    item.declared? = some name ↔ item.isModule = false ∧ name ∈ item.typeNames := by
  cases item <;> simp [declared?, isModule, typeNames, eq_comm]

theorem mem_keys_resolve : name ∈ KeyedList.keys (resolve files) ↔
    ∃ item ∈ files.flatten, item.declared? = some name := by
  rw [keys_resolve, List.mem_eraseDups, List.mem_filterMap]

theorem Item.isType_of_isModule (h : item.isModule = true) : item.isType = false := by
  cases item with
  | module => rfl
  | _ => cases h

theorem Item.isImplementation_of_isModule (h : item.isModule = true) :
    item.isImplementation = false := by
  cases item with
  | module => rfl
  | _ => cases h

theorem filter_filter_isModule {p : Item → Bool}
    (h : ∀ item : Item, item.isModule = true → p item = false) :
    (items.filter (!·.isModule)).filter p = items.filter p := by
  rw [List.filter_filter]
  refine List.filter_congr fun item _ => ?_
  cases hm : item.isModule with
  | true => simp [h item hm]
  | false => simp

theorem resolve_filter_isModule (files : List (List Item)) :
    resolve (files.map fun items => items.filter (!·.isModule)) = resolve files := by
  have hflatten : (files.map fun items => items.filter (!·.isModule)).flatten =
      files.flatten.filter (!·.isModule) := (List.filter_flatten ..).symm
  refine resolve_eq_of_moved ?_ ?_ <;> rw [hflatten]
  · exact filter_filter_isModule fun _ => Item.isType_of_isModule
  · exact filter_filter_isModule fun _ => Item.isImplementation_of_isModule

/-- All types of source files are declared, whatever modules they stand in, just if every type in a
module shares its name with one at the outer level. Modules themselves make no difference: without
them the same is declared. -/
theorem typeNames_declared_iff (files : List (List Item)) :
    ((∀ item ∈ files.flatten, ∀ name ∈ item.typeNames, name ∈ KeyedList.keys (resolve files)) ↔
      ∀ m items, .module m items ∈ files.flatten → ∀ item ∈ items, ∀ name ∈ item.typeNames,
        ∃ outer ∈ files.flatten, outer.declared? = some name) ∧
    resolve (files.map fun items => items.filter (!·.isModule)) = resolve files := by
  refine ⟨⟨fun h m items hm item hitem name hname => ?_, fun h item hitem name hname => ?_⟩,
    resolve_filter_isModule files⟩
  · exact mem_keys_resolve.1 (h _ hm name (Item.mem_typeNames_module.2 ⟨item, hitem, hname⟩))
  · rw [mem_keys_resolve]
    cases hmodule : item.isModule with
    | false => exact ⟨item, hitem, Item.declared?_eq_some_iff.2 ⟨hmodule, hname⟩⟩
    | true =>
      cases item with
      | module m items =>
        obtain ⟨inner, hinner, hname⟩ := Item.mem_typeNames_module.1 hname
        exact h m items hitem inner hinner name hname
      | _ => cases hmodule

/-- A file with nothing but a module in which a type stands declares no type. -/
theorem shelf_not_declared :
    ∃ items ∈ parse? "mod books { pub struct Shelf { pub id: u32 } }",
      (∃ item ∈ items, "Shelf" ∈ item.typeNames) ∧ "Shelf" ∉ KeyedList.keys (resolve [items]) := by
  decide +kernel

end ApiModels.Source
