import ApiModels.Naming.Convention
import ApiModels.Proofs.Source.Resolution
import ApiModels.Source.File
import ApiModels.Walk

/-!
# Accessors

An accessor is a public function without parameters that returns something and takes nothing, or a
shared reference to its value and nothing else. Every accessor in an own implementation of a declared
type is recorded as a method (`methods_eq_recorded`). But which functions are recorded depends on the
arguments besides the receiver alone: a function that uses its value up or changes it is recorded just
as if it took a shared reference (`Function.isRecorded_iff`), and becomes a property of the model.
-/

namespace ApiModels.Source

variable {scope : Scope} {f : Function} {m : Method} {i : Implementation} {items : List Item}

namespace Function

/-- Whether a function is recorded as a method. -/
structure IsRecorded (f : Function) : Prop where
  isPublic : f.isPublic = true
  notGeneric : f.signature.isGeneric = false
  noArguments : f.signature.arguments = 0
  returns : f.signature.returns.isSome = true

/-- Whether a function is an accessor: beyond what is asked of a recorded one, it has no receiver but
a shared reference. -/
structure IsAccessor (f : Function) : Prop extends f.IsRecorded where
  receiver : ∀ r ∈ f.signature.receiver, r = .reference false

/-- The function with another receiver. -/
def taking (f : Function) (r : Receiver) : Function :=
  { f with signature := { f.signature with receiver := some r } }

instance : Decidable f.IsRecorded :=
  decidable_of_iff (f.isPublic = true ∧ f.signature.isGeneric = false ∧ f.signature.arguments = 0 ∧
      f.signature.returns.isSome = true)
    ⟨fun ⟨isPublic, notGeneric, noArguments, returns⟩ =>
      ⟨isPublic, notGeneric, noArguments, returns⟩,
    fun h => ⟨h.isPublic, h.notGeneric, h.noArguments, h.returns⟩⟩

instance : Decidable f.IsAccessor :=
  decidable_of_iff (f.IsRecorded ∧ ∀ r ∈ f.signature.receiver, r = .reference false)
    ⟨fun ⟨isRecorded, receiver⟩ => ⟨isRecorded, receiver⟩, fun h => ⟨h.toIsRecorded, h.receiver⟩⟩

/-- A function is recorded if it is an accessor, or would be one if it took a shared reference to its
value in place of what it takes. -/
theorem isRecorded_iff : f.IsRecorded ↔
    f.IsAccessor ∨ (∃ r ∈ f.signature.receiver, r ≠ .reference false) ∧
      (f.taking (.reference false)).IsAccessor := by
  constructor
  · intro h
    by_cases hreceiver : ∀ r ∈ f.signature.receiver, r = .reference false
    · exact .inl ⟨h, hreceiver⟩
    · refine .inr ⟨by simpa using hreceiver, ⟨⟨h.isPublic, h.notGeneric, h.noArguments, h.returns⟩, ?_⟩⟩
      rintro r ⟨⟩
      rfl
  · rintro (h | ⟨-, h⟩)
    · exact h.toIsRecorded
    · exact ⟨h.isPublic, h.notGeneric, h.noArguments, h.returns⟩

end Function

/-- A method has the name of its function, and is static if the function has no receiver. -/
theorem Scope.map_method? : (scope.method? f).map (fun m => (m.name, m.isStatic)) =
    if f.IsRecorded then some (f.signature.name.text, f.signature.receiver.isNone) else none := by
  by_cases hf : f.IsRecorded
  · obtain ⟨returns, hreturns⟩ := Option.isSome_iff_exists.1 hf.returns
    simp [method?, hf, hf.isPublic, hf.notGeneric, hf.noArguments, hreturns]
  · rw [if_neg hf, method?]
    split
    · rfl
    · next hopen =>
      have hnone : f.signature.returns = none := by
        simp only [Bool.or_eq_true, Bool.not_eq_true', decide_eq_true_eq, not_or,
          Bool.not_eq_false, Bool.not_eq_true, Decidable.not_not] at hopen
        obtain ⟨⟨isPublic, notGeneric⟩, noArguments⟩ := hopen
        by_contra hreturns
        exact hf ⟨isPublic, notGeneric, noArguments, Option.isSome_iff_ne_none.2 hreturns⟩
      rw [hnone]
      rfl

theorem map_methods (functions : List Function) :
    (functions.filterMap scope.method?).map (fun m => (m.name, m.isStatic)) =
      (functions.filter (·.IsRecorded)).map fun f =>
        (f.signature.name.text, f.signature.receiver.isNone) := by
  rw [List.map_filterMap]
  induction functions with
  | nil => rfl
  | cons f functions ih =>
    rw [List.filterMap_cons, Scope.map_method?, List.filter_cons]
    by_cases hf : f.IsRecorded <;> simp [hf, ih]

theorem methods_of_mem_resolve {files : List (List Item)} {d : Declaration}
    (hd : d ∈ (resolve files).declarations) :
    d.methods = (((files.flatten.filterMap Item.implementation?).filter
      (·.Inherent d.name)).flatMap (·.functions)).filterMap
        (Scope.method? ⟨files.flatten.filterMap Item.declared?, d.name⟩) := by
  rw [resolve_eq_ofList, KeyedList.mem_ofList] at hd
  obtain ⟨first, -, rfl⟩ := List.mem_map.1 (List.mem_of_find?_eq_some hd)
  rw [List.filterMap_flatMap]
  exact flatMap_methods

/-- The methods of a declared type are the recorded functions of its own implementations, in order. A
function is recorded if it is an accessor, and otherwise only if nothing but its receiver keeps it
from being one. -/
theorem methods_eq_recorded (files : List (List Item)) :
    (∀ d ∈ (resolve files).declarations,
      d.methods.map (fun m => (m.name, m.isStatic)) =
        ((((files.flatten.filterMap Item.implementation?).filter (·.Inherent d.name)).flatMap
          (·.functions)).filter (·.IsRecorded)).map fun f =>
            (f.signature.name.text, f.signature.receiver.isNone)) ∧
    ∀ f : Function, f.IsRecorded ↔
      f.IsAccessor ∨ (∃ r ∈ f.signature.receiver, r ≠ .reference false) ∧
        (f.taking (.reference false)).IsAccessor := by
  refine ⟨fun d hd => ?_, fun f => f.isRecorded_iff⟩
  rw [methods_of_mem_resolve hd]
  exact map_methods _

/-- A type with a function for each way to take its value, and an accessor that takes nothing. -/
def userFile : List Item :=
  let function (name : String) (receiver : Option Receiver) : Function :=
    ⟨[], true, ⟨⟨name, false⟩, false, receiver, 0, some (.path .relative [⟨⟨"User", false⟩, []⟩])⟩⟩
  [.structure ⟨[], ⟨"User", false⟩, []⟩,
    .implementation ⟨false, .path .relative [⟨⟨"User", false⟩, []⟩],
      [function "id" (some (.reference false)), function "root" none,
        function "renamed" (some (.reference true)), function "closed" (some (.value false))]⟩]

theorem user_methods_eq_recorded :
    ∃ d ∈ (resolve [userFile]).declarations,
      d.methods.map (fun m => (m.name, m.isStatic)) =
        [("id", false), ("root", true), ("renamed", false), ("closed", false)] := by
  obtain ⟨hmethods, -⟩ := methods_eq_recorded [userFile]
  obtain ⟨d, hd, hname⟩ : ∃ d ∈ (resolve [userFile]).declarations, d.name = "User" := by
    decide +kernel
  refine ⟨d, hd, ?_⟩
  rw [hmethods d hd, hname]
  decide +kernel

/-- A function that uses its value up is recorded, and is a property of the model. -/
theorem consuming_recorded :
    ∃ items ∈ parse? "pub struct User \x7b name: String \x7d
impl User \x7b
pub fn into_name(self) -> String \x7b self.name \x7d
\x7d
",
      (∀ i ∈ items.filterMap Item.implementation?, ∀ f ∈ i.functions, ¬f.IsAccessor) ∧
      (∃ d ∈ (resolve [items]).declarations,
        d.methods.map (fun m => (m.name, m.isStatic)) = [("into_name", false)]) ∧
      (Walk.models ⟨resolve [items], {}, conventionChain []⟩ ⟨"User", []⟩).toList.map
        (KeyedList.keys ·.properties) = [["name", "into_name"]] := by
  rw [parse?_ofList]
  decide +kernel

end ApiModels.Source
