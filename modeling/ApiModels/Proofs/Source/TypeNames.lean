import ApiModels.Proofs.Source.Resolution
import ApiModels.Proofs.TypeRef.Display

/-!
# Written forms of resolved types

Identifiers are not empty and have no white space, commas and brackets. Where this holds of those in
the types of source files, every reference that resolution makes of a type is readable, so its
written form denotes the same reference.
-/

namespace ApiModels

open ApiModels.Text

/-- A text without white space, commas and brackets. -/
structure IsPlain (text : String) : Prop where
  nonempty : text ≠ ""
  forall_mem : ∀ c ∈ text.toList, isBlank c = false ∧ c ∉ [',', '<', '>', '[', ']']

instance {text : String} : Decidable (IsPlain text) :=
  decidable_of_iff
    (text ≠ "" ∧ text.toList.all (fun c => !isBlank c && c ∉ [',', '<', '>', '[', ']']) = true) <| by
      constructor
      · intro h
        refine ⟨h.1, fun c hc => ?_⟩
        simpa using List.all_eq_true.1 h.2 c hc
      · intro h
        refine ⟨h.nonempty, List.all_eq_true.2 fun c hc => ?_⟩
        simpa using h.forall_mem c hc

namespace IsPlain

variable {text : String} {texts : List String} {arguments : List TypeRef}

theorem isName (h : IsPlain text) : TypeRef.IsName text where
  nonempty := by simpa using h.nonempty
  noMark c hc := by
    have hmark := (h.forall_mem c hc).2
    simp only [List.mem_cons, not_or] at hmark
    exact ⟨hmark.2.1, hmark.2.2.1, hmark.1⟩
  head c hc := (h.forall_mem c (List.mem_of_mem_head? hc)).1
  last c hc := (h.forall_mem c (List.mem_of_mem_getLast? hc)).1

theorem not_suffix (h : IsPlain text) : ¬['[', ']'] <:+ text.toList := by
  intro hsuffix
  have hmem : '[' ∈ text.toList := hsuffix.subset List.mem_cons_self
  exact absurd (h.forall_mem _ hmem).2 (by decide)

theorem readable (h : IsPlain text) (hargs : ∀ a ∈ arguments, a.Readable) :
    TypeRef.Readable ⟨text, arguments⟩ :=
  .mk h.isName (fun _ => h.not_suffix) hargs

theorem readable_array {t : TypeRef} (h : t.Readable) : (TypeRef.array t).Readable := by
  apply readable (by decide +kernel)
  intro a ha
  cases List.mem_singleton.1 ha
  exact h

theorem append {text' : String} (h : IsPlain text) (h' : IsPlain text') : IsPlain (text ++ text') where
  nonempty := by
    intro heq
    exact h.nonempty (String.append_eq_empty_iff.1 heq).1
  forall_mem c hc := by
    rw [String.toList_append, List.mem_append] at hc
    rcases hc with hc | hc
    · exact h.forall_mem c hc
    · exact h'.forall_mem c hc

theorem intercalate (hne : texts ≠ []) (h : ∀ text ∈ texts, IsPlain text) :
    IsPlain ("::".intercalate texts) := by
  induction texts with
  | nil => exact absurd rfl hne
  | cons text texts ih =>
    have hfirst := h text List.mem_cons_self
    cases texts with
    | nil => simpa using hfirst
    | cons next texts =>
      have hrest := ih (List.cons_ne_nil _ _) fun t ht => h t (List.mem_cons_of_mem text ht)
      rw [String.intercalate_cons_cons]
      have hcolons : IsPlain "::" := by decide +kernel
      exact (hfirst.append hcolons).append hrest

end IsPlain

namespace Source

/-! ## Identifiers of types -/

mutual
/-- The identifiers in the paths that a type is made of. -/
def Ty.identifiers : Ty → List Identifier
  | .path _ segments => identifiersOfSegments segments
  | .reference _ _ target => target.identifiers
  | .parenthesized inner => inner.identifiers
  | .slice element => element.identifiers
  | .array element => element.identifiers
  | .tuple elements => identifiersOfTypes elements
  | .bound => []
  | .other => []

def Ty.identifiersOfTypes : List Ty → List Identifier
  | [] => []
  | t :: ts => t.identifiers ++ identifiersOfTypes ts

def Ty.identifiersOfSegments : List Segment → List Identifier
  | [] => []
  | ⟨name, arguments⟩ :: rest =>
    name :: identifiersOfArguments arguments ++ identifiersOfSegments rest

def Ty.identifiersOfArguments : List Argument → List Identifier
  | [] => []
  | .type t :: rest => t.identifiers ++ identifiersOfArguments rest
  | .lifetime _ :: rest => identifiersOfArguments rest
  | .constant :: rest => identifiersOfArguments rest
  | .associated :: rest => identifiersOfArguments rest
end

/-- The identifiers in what an item is called and in the types of its fields and functions. -/
def Item.identifiers : Item → List Identifier
  | .structure s => s.name :: s.fields.flatMap fun f => f.type.identifiers
  | .enumeration e => [e.name]
  | .implementation i =>
    i.functions.flatMap fun f => f.signature.returns.toList.flatMap Ty.identifiers
  | .module .. => []
  | .other => []

variable {scope : Scope} {segments : List Segment} {s : Segment}

theorem name_mem_identifiersOfSegments (h : s ∈ segments) :
    s.name ∈ Ty.identifiersOfSegments segments := by
  induction segments with
  | nil => cases h
  | cons first rest ih =>
    obtain ⟨name, arguments⟩ := first
    rw [Ty.identifiersOfSegments]
    rcases List.mem_cons.1 h with rfl | h
    · exact List.mem_append_left _ List.mem_cons_self
    · exact List.mem_append_right _ (ih h)

theorem Scope.isPlain_pathName (hself : IsPlain scope.self) (hne : segments ≠ [])
    (h : ∀ i ∈ Ty.identifiersOfSegments segments, IsPlain i.text) :
    IsPlain (scope.pathName segments) := by
  have hname : ∀ s ∈ segments, IsPlain s.name.text := by
    intro s hs
    exact h s.name (name_mem_identifiersOfSegments hs)
  have hlast : IsPlain ((segments.getLast?.map (·.name.text)).getD "") := by
    rw [List.getLast?_eq_some_getLast hne]
    exact hname _ (List.getLast_mem hne)
  rw [pathName]
  split
  · exact hself
  · split
    · exact hlast
    · rw [pathText]
      apply IsPlain.intercalate
      · simpa using hne
      · intro text htext
        simp only [List.map_map, List.mem_map] at htext
        obtain ⟨s, hs, rfl⟩ := htext
        exact hname s hs

mutual
/-- The reference that a type stands for is readable. -/
theorem Scope.readable_typeRef (hself : IsPlain scope.self) :
    ∀ t : Ty, (∀ i ∈ t.identifiers, IsPlain i.text) → (scope.typeRef t).Readable
  | .path .qualified segments, _ => by
    rw [typeRef]
    exact IsPlain.readable (by decide +kernel) (by simp)
  | .path .relative [], _ | .path .absolute [], _ => by
    rw [typeRef]
    · exact IsPlain.readable (by decide +kernel) (by simp)
    · simp
  | .path .relative (s :: rest), h | .path .absolute (s :: rest), h => by
    rw [typeRef]
    · rw [Ty.identifiers] at h
      exact (isPlain_pathName hself (List.cons_ne_nil _ _) h).readable
        (readable_lastArguments hself (s :: rest) h)
    · simp
  | .reference _ _ target, h => by
    rw [typeRef]
    exact readable_typeRef hself target h
  | .parenthesized inner, h => by
    rw [typeRef]
    exact readable_typeRef hself inner h
  | .slice element, h => by
    rw [typeRef]
    exact IsPlain.readable_array (readable_typeRef hself element h)
  | .array element, h => by
    rw [typeRef]
    exact IsPlain.readable_array (readable_typeRef hself element h)
  | .tuple [], _ => by
    rw [typeRef]
    exact IsPlain.readable (by decide +kernel) (by simp)
  | .tuple (_ :: _), _ => by
    rw [typeRef]
    exact IsPlain.readable (by decide +kernel) (by simp)
  | .bound, _ | .other, _ => by
    rw [typeRef]
    exact IsPlain.readable (by decide +kernel) (by simp)

theorem Scope.readable_lastArguments (hself : IsPlain scope.self) :
    ∀ segments, (∀ i ∈ Ty.identifiersOfSegments segments, IsPlain i.text) →
      ∀ a ∈ scope.lastArguments segments, a.Readable
  | [], _ => by
    rw [lastArguments]
    exact fun _ ha => nomatch ha
  | [⟨name, arguments⟩], h => by
    rw [lastArguments]
    apply readable_typeArguments hself arguments
    intro i hi
    apply h
    rw [Ty.identifiersOfSegments]
    exact List.mem_append_left _ (List.mem_cons_of_mem name hi)
  | ⟨name, arguments⟩ :: s :: rest, h => by
    rw [lastArguments]
    apply readable_lastArguments hself (s :: rest)
    intro i hi
    apply h
    rw [Ty.identifiersOfSegments]
    exact List.mem_append_right _ hi

theorem Scope.readable_typeArguments (hself : IsPlain scope.self) :
    ∀ arguments, (∀ i ∈ Ty.identifiersOfArguments arguments, IsPlain i.text) →
      ∀ a ∈ scope.typeArguments arguments, a.Readable
  | [], _ => by
    rw [typeArguments]
    exact fun _ ha => nomatch ha
  | .type t :: rest, h => by
    rw [Ty.identifiersOfArguments] at h
    rw [typeArguments]
    intro a ha
    rcases List.mem_cons.1 ha with rfl | ha
    · exact readable_typeRef hself t fun i hi => h i (List.mem_append_left _ hi)
    · exact readable_typeArguments hself rest (fun i hi => h i (List.mem_append_right _ hi)) a ha
  | .lifetime _ :: rest, h | .constant :: rest, h | .associated :: rest, h => by
    rw [Ty.identifiersOfArguments] at h
    rw [typeArguments]
    exact readable_typeArguments hself rest h
end

end Source

end ApiModels
