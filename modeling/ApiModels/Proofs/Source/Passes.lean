import Mathlib.Logic.Basic
import ApiModels.Proofs.KeyedList
import ApiModels.Source.Resolve

/-!
# The passes over source files

Source files are passed over for the names that they declare, then for the first declaration of each
name, and then for the methods. An implementation adds its methods behind those that the declaration
of its name has already, and changes nothing else (`toList_implement_implementation`). So a
declaration ends up with the methods of all own implementations of its name, in order
(`toList_foldl_implement`), and what the passes collect can be said at once of the items of all files
(`resolve_eq_ofList`).
-/

namespace ApiModels.Source

variable {scope : Scope} {i : Implementation} {item : Item} {declared : List String} {name : String}
  {d : Declaration} {more more' : String → List Method} {ps : List (String × Declaration)}

/-- Whether an implementation is that of the types called `name` themselves: it is that of no trait,
and its self type is a path that ends in `name`. -/
structure Implementation.Inherent (i : Implementation) (name : String) : Prop where
  noTrait : i.hasTrait = false
  path : ∃ root front last, i.target = .path root (front ++ [last]) ∧ last.name.text = name

theorem Implementation.ownName?_eq_some_iff : i.ownName? = some name ↔ i.Inherent name := by
  obtain ⟨hasTrait, target, functions⟩ := i
  constructor
  · intro h
    cases hasTrait with
    | true => cases h
    | false =>
      cases target with
      | path root segments =>
        obtain ⟨last, hlast, hname⟩ := Option.map_eq_some_iff.1 h
        obtain ⟨front, rfl⟩ := List.getLast?_eq_some_iff.1 hlast
        exact ⟨rfl, root, front, last, rfl, hname⟩
      | _ => cases h
  · rintro ⟨rfl, root, front, last, rfl, hname⟩
    change (front ++ [last]).getLast?.map (·.name.text) = some name
    rw [List.getLast?_concat, Option.map_some, hname]

instance : Decidable (i.Inherent name) :=
  decidable_of_iff (i.ownName? = some name) Implementation.ownName?_eq_some_iff

/-! ## Declarations -/

/-- A pass for declarations keeps the first of each name. -/
theorem foldl_declare (ds : OrderedMap Declaration) (items : List Item) :
    items.foldl (declare declared) ds =
      KeyedList.insertAll ds
        ((items.filterMap (Item.declaration? declared)).map fun d => (d.name, d)) := by
  induction items generalizing ds with
  | nil => rfl
  | cons item items ih =>
    rw [List.foldl_cons, ih, declare]
    cases hd : item.declaration? declared with
    | none => rw [List.filterMap_cons_none hd]
    | some d => rw [List.filterMap_cons_some hd, List.map_cons, KeyedList.insertAll_cons]

theorem toList_declareAll (declared : List String) (files : List (List Item)) :
    (declareAll declared files).toList =
      (KeyedList.ofList (files.flatten.filterMap (Item.declaration? declared)) : Catalog).toList.map
        fun d => (d.name, d) := by
  rw [declareAll, ← List.foldl_flatten, foldl_declare]
  exact KeyedList.toList_ofList_map fun _ => rfl

theorem methods_of_declaration? (h : item.declaration? declared = some d) : d.methods = [] := by
  match item with
  | .structure _ | .enumeration _ =>
    cases h
    rfl

/-! ## Methods -/

/-- The methods that an item adds to the type that is being declared. -/
def Scope.methods (scope : Scope) : Item → List Method
  | .implementation i => if i.Inherent scope.self then i.functions.filterMap scope.method? else []
  | _ => []

/-- Which types an implementation is of is said without its functions. -/
theorem Scope.methods_functions (functions : List Function) :
    scope.methods (.implementation { i with functions }) =
      if i.Inherent scope.self then functions.filterMap scope.method? else [] := by
  rw [methods]
  exact if_congr ⟨fun h => ⟨h.noTrait, h.path⟩, fun h => ⟨h.noTrait, h.path⟩⟩ rfl rfl

/-- A declaration with more methods behind its own, those for its name. -/
def addMethods (more : String → List Method) (p : String × Declaration) : String × Declaration :=
  (p.1, { p.2 with methods := p.2.methods ++ more p.1 })

theorem map_addMethods_eq_self (h : ∀ p ∈ ps, more p.1 = []) : ps.map (addMethods more) = ps := by
  refine (List.map_congr_left ?_).trans (List.map_id ps)
  intro p hp
  rw [addMethods, h p hp, List.append_nil]
  rfl

theorem map_addMethods_map (ps : List (String × Declaration)) :
    (ps.map (addMethods more)).map (addMethods more') =
      ps.map (addMethods fun name => more name ++ more' name) := by
  rw [List.map_map]
  apply List.map_congr_left
  intro p _
  simp [addMethods]

theorem Scope.foldl_addMethod (d : Declaration) (functions : List Function) :
    functions.foldl scope.addMethod d =
      { d with methods := d.methods ++ functions.filterMap scope.method? } := by
  induction functions generalizing d with
  | nil => simp
  | cons f functions ih =>
    rw [List.foldl_cons, ih, addMethod]
    cases hm : scope.method? f with
    | none => rw [List.filterMap_cons_none hm]
    | some m => simp [List.filterMap_cons_some hm]

/-- An implementation changes the declaration of its name, by its methods, and no other. -/
theorem toList_implement_implementation (declared : List String) (ds : OrderedMap Declaration)
    (i : Implementation) : (implement declared ds (.implementation i)).toList =
      ds.toList.map fun p =>
        if i.Inherent p.1 then (p.1, { p.2 with
          methods := p.2.methods ++ i.functions.filterMap (Scope.method? ⟨declared, p.1⟩) })
        else p := by
  rw [implement]
  split
  · next hown =>
    -- it is the own implementation of no type
    refine ((List.map_congr_left fun p _ => if_neg ?_).trans (List.map_id _)).symm
    intro hi
    cases hown.symm.trans (Implementation.ownName?_eq_some_iff.2 hi)
  · next name hown =>
    have hinherent (k : String) : i.Inherent k ↔ k = name := by
      rw [← Implementation.ownName?_eq_some_iff, hown, Option.some.injEq, eq_comm]
    split
    · next hget =>
      -- its type is not declared
      refine ((List.map_congr_left fun p hp => if_neg ?_).trans (List.map_id _)).symm
      intro hi
      exact OrderedMap.get?_eq_none_iff.1 hget ((hinherent p.1).1 hi ▸ List.mem_map_of_mem hp)
    · next d hget =>
      rw [OrderedMap.toList_set_of_get? (i.functions.foldl (Scope.addMethod ⟨declared, name⟩)) hget]
      apply List.map_congr_left
      intro p _
      by_cases hname : p.1 = name
      · rw [if_pos hname, if_pos ((hinherent _).2 hname), Scope.foldl_addMethod, hname]
      · rw [if_neg hname, if_neg (mt (hinherent _).1 hname)]

theorem toList_implement (declared : List String) (ds : OrderedMap Declaration) (item : Item) :
    (implement declared ds item).toList =
      ds.toList.map (addMethods fun name => Scope.methods ⟨declared, name⟩ item) := by
  cases item with
  | implementation i =>
    rw [toList_implement_implementation]
    apply List.map_congr_left
    intro p _
    rw [addMethods, Scope.methods]
    split
    · rfl
    · rw [List.append_nil]
  | _ => exact (map_addMethods_eq_self fun _ _ => rfl).symm

/-- A pass for methods gives each declaration those of all items. -/
theorem toList_foldl_implement (declared : List String) (ds : OrderedMap Declaration)
    (items : List Item) : (items.foldl (implement declared) ds).toList =
      ds.toList.map (addMethods fun name => items.flatMap (Scope.methods ⟨declared, name⟩)) := by
  induction items generalizing ds with
  | nil => exact (map_addMethods_eq_self fun _ _ => rfl).symm
  | cons item items ih =>
    rw [List.foldl_cons, ih, toList_implement, map_addMethods_map]
    simp only [List.flatMap_cons]

theorem toList_implementAll (declared : List String) (ds : OrderedMap Declaration)
    (files : List (List Item)) : (implementAll declared ds files).toList =
      ds.toList.map
        (addMethods fun name => files.flatten.flatMap (Scope.methods ⟨declared, name⟩)) := by
  rw [implementAll, ← List.foldl_flatten, toList_foldl_implement]

/-! ## The passes together -/

theorem declaredNames_eq (files : List (List Item)) :
    declaredNames files = files.flatten.filterMap Item.declared? := by
  rw [declaredNames, List.filterMap_flatten, List.flatMap_def]

/-- The passes find, of the declarations of each name, the first, with the methods of its name in
all files. -/
theorem resolve_eq_ofList (files : List (List Item)) :
    resolve files = .ofList ((files.flatten.filterMap
      (Item.declaration? (files.flatten.filterMap Item.declared?))).map fun d => { d with
        methods := files.flatten.flatMap
          (Scope.methods ⟨files.flatten.filterMap Item.declared?, d.name⟩) }) := by
  rw [resolve, declaredNames_eq, toList_implementAll, toList_declareAll]
  generalize files.flatten = items
  generalize items.filterMap Item.declared? = declared
  generalize hds : items.filterMap (Item.declaration? declared) = ds
  -- the first declarations are put under their names, given methods and taken out again
  have hcatalog : (((KeyedList.ofList ds : Catalog).toList.map fun d => (d.name, d)).map
      (addMethods fun name => items.flatMap (Scope.methods ⟨declared, name⟩))).map Prod.snd =
        (KeyedList.ofList (ds.map fun d => { d with
          methods := items.flatMap (Scope.methods ⟨declared, d.name⟩) }) : Catalog).toList := by
    rw [KeyedList.toList_ofList_map fun _ => rfl, List.map_map, List.map_map]
    apply List.map_congr_left
    intro d hd
    have hmem : d ∈ items.filterMap (Item.declaration? declared) :=
      hds ▸ List.mem_of_find?_eq_some (KeyedList.mem_ofList.1 hd)
    obtain ⟨item, -, hdeclaration⟩ := List.mem_filterMap.1 hmem
    simp [addMethods, methods_of_declaration? hdeclaration]
  rw [hcatalog, KeyedList.ofList_toList]

end ApiModels.Source
