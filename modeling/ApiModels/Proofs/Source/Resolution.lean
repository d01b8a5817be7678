import Mathlib.Data.List.Basic
import ApiModels.Proofs.Source.Passes

/-!
# What source files declare

Declarations and implementations are met in passes of their own: of the declarations of one name the
first counts, whichever file it is in, and its methods are those of all implementations of that
name. So only the order among declarations and the order among implementations make a difference
(`Source.resolve_eq_of_moved`), not where one stands to the other nor how the items are spread over
files.
-/

namespace ApiModels.Source

namespace Item

/-- The implementation that an item is. -/
def implementation? : Item → Option Implementation
  | .implementation i => some i
  | _ => none

/-- Whether an item declares a type. -/
def isType (item : Item) : Bool := item.declared?.isSome

/-- Whether an item is an implementation. -/
def isImplementation (item : Item) : Bool := item.implementation?.isSome

end Item

variable {scope : Scope} {item : Item} {items items' : List Item}
  {declared : List String} {name : String} {d : Declaration}

/-! ## Declarations -/

theorem map_name_declaration? (declared : List String) (item : Item) :
    (item.declaration? declared).map Declaration.name = item.declared? := by
  cases item <;> rfl

theorem filterMap_name_declaration? :
    (items.filterMap (Item.declaration? declared)).map Declaration.name =
      items.filterMap Item.declared? := by
  rw [List.map_filterMap]
  exact List.filterMap_congr fun item _ => map_name_declaration? declared item

/-- The first declaration of a name is that of the first item that declares it. -/
theorem exists_first_item
    (h : (items.filterMap (Item.declaration? declared)).find? (·.name == name) = some d) :
    ∃ item, items.find? (·.declared? == some name) = some item ∧
      item.declaration? declared = some d := by
  induction items with
  | nil => cases h
  | cons item items ih =>
    have hitem := map_name_declaration? declared item
    cases hd : item.declaration? declared with
    | none =>
      rw [hd] at hitem
      rw [List.filterMap_cons_none hd] at h
      rw [List.find?_cons_of_neg (by simp [← hitem])]
      exact ih h
    | some d' =>
      rw [hd] at hitem
      rw [List.filterMap_cons_some hd, List.find?_cons] at h
      cases hname : d'.name == name with
      | true =>
        rw [hname] at h
        cases h
        refine ⟨item, List.find?_cons_of_pos ?_, hd⟩
        rw [← hitem]
        simpa using hname
      | false =>
        rw [hname] at h
        rw [List.find?_cons_of_neg (by rw [← hitem]; simpa using hname)]
        exact ih h

/-! ## Methods -/

/-- The methods of a type come from its own implementations. -/
theorem flatMap_methods : items.flatMap scope.methods =
    ((items.filterMap Item.implementation?).filter (·.Inherent scope.self)).flatMap
      fun i => i.functions.filterMap scope.method? := by
  induction items with
  | nil => rfl
  | cons item items ih =>
    rw [List.flatMap_cons, ih]
    cases item with
    | implementation i =>
      have himpl : (Item.implementation i).implementation? = some i := rfl
      rw [List.filterMap_cons_some himpl, Scope.methods]
      split
      · next hi =>
        rw [List.filter_cons_of_pos (by simpa using hi)]
        rfl
      · next hi =>
        rw [List.filter_cons_of_neg (by simpa using hi)]
        rfl
    | _ => rfl

/-! ## Order of items -/

theorem filterMap_filter_isSome {α : Type} {f : Item → Option α} {p : Item → Bool}
    (h : ∀ item, p item = false → f item = none) :
    (items.filter p).filterMap f = items.filterMap f := by
  rw [List.filterMap_filter]
  refine List.filterMap_congr fun item _ => ?_
  cases hp : p item with
  | true => rfl
  | false => exact (h item hp).symm

/-- Files with the same types and the same implementations, each in the same order, declare the
same. -/
theorem resolve_eq_of_moved {files files' : List (List Item)}
    (htypes : files'.flatten.filter Item.isType = files.flatten.filter Item.isType)
    (himpls : files'.flatten.filter Item.isImplementation =
      files.flatten.filter Item.isImplementation) : resolve files' = resolve files := by
  have hdeclared : files'.flatten.filterMap Item.declared? =
      files.flatten.filterMap Item.declared? := by
    have h (item : Item) (hitem : item.isType = false) : item.declared? = none := by
      simpa [Item.isType] using hitem
    rw [← filterMap_filter_isSome h, htypes, filterMap_filter_isSome h]
  have hdeclarations (declared : List String) :
      files'.flatten.filterMap (Item.declaration? declared) =
        files.flatten.filterMap (Item.declaration? declared) := by
    have h (item : Item) (hitem : item.isType = false) : item.declaration? declared = none := by
      rw [Item.isType, ← map_name_declaration? declared] at hitem
      simpa using hitem
    rw [← filterMap_filter_isSome h, htypes, filterMap_filter_isSome h]
  have himplementations : files'.flatten.filterMap Item.implementation? =
      files.flatten.filterMap Item.implementation? := by
    have h (item : Item) (hitem : item.isImplementation = false) :
        item.implementation? = none := by
      simpa [Item.isImplementation] using hitem
    rw [← filterMap_filter_isSome h, himpls, filterMap_filter_isSome h]
  simp only [resolve_eq_ofList, hdeclared, hdeclarations, flatMap_methods, himplementations]

theorem keys_resolve (files : List (List Item)) :
    KeyedList.keys (resolve files) = (files.flatten.filterMap Item.declared?).eraseDups := by
  rw [resolve_eq_ofList, KeyedList.keys_ofList, List.map_map]
  exact congrArg List.eraseDups filterMap_name_declaration?

/-- Source files declare one type for each name that a structure or an enumeration at their outer
level has, in the order in which the names first come up; it is what the first item of the name
declares, with the methods of all own implementations of the name, in order. How the items are
spread over files, and where implementations stand among them, makes no difference. -/
theorem resolve_declarations (files : List (List Item)) :
    KeyedList.keys (resolve files) = (files.flatten.filterMap Item.declared?).eraseDups ∧
    (∀ d ∈ (resolve files).declarations, ∃ item first,
      files.flatten.find? (·.declared? == some d.name) = some item ∧
      item.declaration? (files.flatten.filterMap Item.declared?) = some first ∧
      d.name = first.name ∧ d.kind = first.kind ∧ d.fields = first.fields ∧
      d.superclass = first.superclass ∧ d.annotations = first.annotations ∧
      d.methods =
        ((files.flatten.filterMap Item.implementation?).filter (·.Inherent d.name)).flatMap
          fun i => i.functions.filterMap
            (Scope.method? ⟨files.flatten.filterMap Item.declared?, d.name⟩)) ∧
    resolve [files.flatten] = resolve files ∧
    ∀ files' : List (List Item),
      files'.flatten.filter Item.isType = files.flatten.filter Item.isType →
      files'.flatten.filter Item.isImplementation = files.flatten.filter Item.isImplementation →
      resolve files' = resolve files := by
  refine ⟨keys_resolve files, fun d hd => ?_, ?_, fun files' => resolve_eq_of_moved⟩
  · rw [resolve_eq_ofList, KeyedList.mem_ofList, List.find?_map] at hd
    obtain ⟨first, hfirst, rfl⟩ := Option.map_eq_some_iff.1 hd
    obtain ⟨item, hitem, hdeclaration⟩ := exists_first_item hfirst
    exact ⟨item, first, hitem, hdeclaration, rfl, rfl, rfl, rfl, rfl, flatMap_methods⟩
  · rw [resolve_eq_ofList, resolve_eq_ofList, List.flatten_singleton]

/-- A public function that returns a number and takes nothing but a reference to its value. -/
private def getter (name : String) : Function :=
  ⟨[], true, ⟨⟨name, false⟩, false, some (.reference false), 0,
    some (.path .relative [⟨⟨"u8", false⟩, []⟩])⟩⟩

/-- The own implementation of `name` with these functions. -/
private def own (name : String) (functions : List String) : Item :=
  .implementation ⟨false, .path .relative [⟨⟨name, false⟩, []⟩], functions.map getter⟩

/-- A cart whose methods stand before and behind it, in files of their own, and a second type with
the name of its lines. -/
def cartFiles : List (List Item) :=
  [[own "Cart" ["total"], .enumeration ⟨[], ⟨"Line", false⟩, [⟨[], ⟨"Open", false⟩⟩]⟩],
    [.structure ⟨[], ⟨"Cart", false⟩,
        [⟨[], ⟨"first", false⟩, .path .relative [⟨⟨"Line", false⟩, []⟩]⟩]⟩,
      .other, .structure ⟨[], ⟨"Line", true⟩, []⟩],
    [own "Cart" ["size", "is_full"], own "Basket" ["lost"]]]

/-- The same types, and behind them the same implementations. -/
def cartFile : List Item :=
  cartFiles.flatten.filter Item.isType ++ cartFiles.flatten.filter Item.isImplementation

theorem cart_resolve_declarations :
    KeyedList.keys (resolve cartFiles) = ["Line", "Cart"] ∧
    (∃ d ∈ (resolve cartFiles).declarations, d.name = "Cart" ∧
      d.fields.map (·.name) = ["first"] ∧
      d.methods.map (·.name) = ["total", "size", "is_full"]) ∧
    [cartFile].flatten.filter Item.isType = cartFiles.flatten.filter Item.isType ∧
    [cartFile].flatten.filter Item.isImplementation =
      cartFiles.flatten.filter Item.isImplementation ∧
    resolve [cartFile] = resolve cartFiles := by
  obtain ⟨hkeys, hdeclarations, -, hmoved⟩ := resolve_declarations cartFiles
  obtain ⟨d, hd, hname⟩ : ∃ d ∈ (resolve cartFiles).declarations, d.name = "Cart" :=
    by decide +kernel
  obtain ⟨item, first, hitem, hfirst, -, -, hfields, -, -, hmethods⟩ := hdeclarations d hd
  rw [hname] at hitem hmethods
  cases hitem
  cases hfirst
  refine ⟨hkeys.trans (by decide +kernel), ⟨d, hd, hname, ?_, ?_⟩, rfl, rfl, hmoved _ rfl rfl⟩
  · rw [hfields]
    rfl
  · rw [hmethods]
    decide +kernel

end ApiModels.Source
