import ApiModels.Proofs.Walk.Agreement
import ApiModels.Proofs.Walk.Exactness

/-!
# What a walk depends on

A walk looks up the names that the root and the declarations of its catalog mention, and no other
names. So it finds the same models when the catalog is joined with declarations that none of them
mention, however these are named otherwise: nothing is looked up by a simple name, and nothing
depends on how many declarations there are.
-/

namespace ApiModels

/-- The types that a declaration mentions: its superclass, the types of its fields, what its methods
return, and the first type arguments of the latter two. -/
def Declaration.references (d : Declaration) : List TypeRef :=
  d.superclass.toList ++
    (d.fields.map (·.type) ++ d.methods.map (·.returns)).flatMap fun t => t :: t.element?.toList

/-- Whether some declaration of the catalog mentions the name. -/
def Catalog.Mentions (c : Catalog) (name : String) : Prop :=
  ∃ d ∈ c.declarations, ∃ t ∈ d.references, t.name = name

variable {c new : Catalog} {root t : TypeRef} {d : Declaration} {f : Field} {g : Method} {m : Member}
  {w : Walk}

instance : DecidablePred c.Mentions := fun _ =>
  inferInstanceAs (Decidable (∃ d ∈ c.declarations, ∃ t ∈ d.references, _))

namespace Declaration

theorem mem_references_of_superclass (h : d.superclass = some t) : t ∈ d.references := by
  simp [references, h]

theorem mem_references_of_field (hf : f ∈ d.fields) (ht : t ∈ f.type :: f.type.element?.toList) :
    t ∈ d.references := by
  have htype : f.type ∈ d.fields.map (·.type) := List.mem_map_of_mem hf
  exact List.mem_append_right _ (List.mem_flatMap.2 ⟨f.type, List.mem_append_left _ htype, ht⟩)

theorem mem_references_of_method (hg : g ∈ d.methods)
    (ht : t ∈ g.returns :: g.returns.element?.toList) : t ∈ d.references := by
  have htype : g.returns ∈ d.methods.map (·.returns) := List.mem_map_of_mem hg
  exact List.mem_append_right _ (List.mem_flatMap.2 ⟨g.returns, List.mem_append_right _ htype, ht⟩)

end Declaration

/-- A name that no new declaration has is looked up in the first catalog only. -/
theorem Catalog.declaration?_extend
    (h : ∀ d ∈ new.declarations, d.name ∉ KeyedList.keys c → t.name ≠ d.name) :
    declaration? (KeyedList.extend c new) t = c.declaration? t := by
  rw [declaration?, KeyedList.find?_extend, declaration?]
  cases hc : KeyedList.find? c t.name with
  | some d => rfl
  | none =>
    cases hnew : KeyedList.find? new t.name with
    | none => rfl
    | some d =>
      obtain ⟨hd, hname⟩ := KeyedList.find?_eq_some_iff.1 hnew
      exact absurd hname.symm (h d hd (hname ▸ KeyedList.find?_eq_none_iff.1 hc))

theorem Catalog.size_le_size_extend (c new : Catalog) :
    KeyedList.size c ≤ KeyedList.size (KeyedList.extend c new) := by
  obtain ⟨added, hadded⟩ := KeyedList.exists_toList_insertAll c new.toList
  rw [KeyedList.size, KeyedList.size, KeyedList.extend, hadded, List.length_append]
  exact Nat.le_add_right _ _

namespace Walk

/-- The types of a member are mentioned by the declaration of its field or method. -/
theorem mentions_of_mem_candidates (hd : d ∈ w.catalog.declarations) (hm : m ∈ w.candidates d)
    (ht : t ∈ m.types) : w.catalog.Mentions t.name := by
  rw [Member.types] at ht
  rcases mem_candidates.1 hm with ⟨a, ha, f, hf, hm⟩ | ⟨g, hg, hm⟩
  · rw [type_of_fieldMember? hm] at ht
    exact ⟨a, Catalog.mem_of_mem_lineage hd ha, t, Declaration.mem_references_of_field hf ht, rfl⟩
  · rw [type_of_methodMember? hm] at ht
    exact ⟨d, hd, t, Declaration.mem_references_of_method hg ht, rfl⟩

/-- The types that a walk from `root` looks up. -/
def LooksUp (c : Catalog) (root t : TypeRef) : Prop := t.name = root.name ∨ c.Mentions t.name

section
variable (h : ∀ d ∈ new.declarations, d.name ∉ KeyedList.keys c →
  d.name ≠ root.name ∧ ¬c.Mentions d.name)
include h

theorem declaration?_of_looksUp (ht : LooksUp c root t) :
    Catalog.declaration? (KeyedList.extend c new) t = c.declaration? t := by
  refine Catalog.declaration?_extend fun d hd hname heq => ?_
  obtain ⟨hroot, hmentions⟩ := h d hd hname
  rcases ht with ht | ht
  · exact hroot (heq.symm.trans ht)
  · exact hmentions (heq ▸ ht)

theorem lineage_extend (hd : d ∈ c.declarations) :
    Catalog.lineage (KeyedList.extend c new) d = c.lineage d := by
  refine Catalog.lineage_congr hd (Catalog.size_le_size_extend c new) fun a ha => ?_
  cases hs : a.superclass with
  | none => rfl
  | some t =>
    have ht := Declaration.mem_references_of_superclass hs
    exact declaration?_of_looksUp h (.inr ⟨a, ha, t, ht, rfl⟩)

theorem agreeOn_extend (policy : Opacity) (chain : List Translator) :
    AgreeOn ⟨c, policy, chain⟩ ⟨KeyedList.extend c new, policy, chain⟩ (LooksUp c root) where
  declaration? t ht := declaration?_of_looksUp h ht
  isTerminal t ht := policy.isTerminal_congr_catalog (declaration?_of_looksUp h ht)
  typeName? t ht := by simp only [typeName?, declaration?_of_looksUp h ht]
  closed d hd m hm t ht := .inr (mentions_of_mem_candidates hd hm ht)
  candidates d hd := by
    have hname {a t} (ha : a ∈ c.declarations) (ht : t ∈ a.references) :
        typeName? ⟨KeyedList.extend c new, policy, chain⟩ t = typeName? ⟨c, policy, chain⟩ t := by
      simp only [typeName?, declaration?_of_looksUp h (.inr ⟨a, ha, t, ht, rfl⟩)]
    refine candidates_congr (lineage_extend h hd) (fun a ha f hf => ?_) fun g hg => ?_
    · have ht := Declaration.mem_references_of_field hf List.mem_cons_self
      exact fieldMember?_congr rfl (hname (Catalog.mem_of_mem_lineage hd ha) ht)
    · have ht := Declaration.mem_references_of_method hg List.mem_cons_self
      exact methodMember?_congr rfl (hname hd ht)

end

/-- Declarations that neither the root nor the catalog mentions do not change what a walk finds. -/
theorem models_extend (c new : Catalog) (policy : Opacity) (chain : List Translator)
    (root : TypeRef) (h : ∀ d ∈ new.declarations, d.name ∉ KeyedList.keys c →
      d.name ≠ root.name ∧ ¬c.Mentions d.name) :
    models ⟨KeyedList.extend c new, policy, chain⟩ root = models ⟨c, policy, chain⟩ root :=
  (agreeOn_extend h policy chain).models_eq (.inl rfl)

/-- A catalog with another declaration of a known name and another type of a known simple name. -/
def crm : Catalog :=
  .ofList [
    { name := "shop.Line", fields := [{ name := "stock", type := { name := "crm.Stock" } }] },
    { name := "crm.Customer"
      superclass := some { name := "shop.Order" }
      fields := [{ name := "since", type := { name := "java.util.Date" } }] }]

theorem shop_models_extend :
    (∀ d ∈ crm.declarations, d.name ∉ KeyedList.keys shop.catalog →
      d.name ≠ "shop.Order" ∧ ¬shop.catalog.Mentions d.name) ∧
    KeyedList.keys (KeyedList.extend shop.catalog crm) =
      KeyedList.keys shop.catalog ++ ["crm.Customer"] ∧
    models ⟨KeyedList.extend shop.catalog crm, {}, [.declared]⟩ { name := "shop.Order" } =
      shop.models { name := "shop.Order" } := by
  have h : ∀ d ∈ crm.declarations, d.name ∉ KeyedList.keys shop.catalog →
      d.name ≠ "shop.Order" ∧ ¬shop.catalog.Mentions d.name := by decide +kernel
  exact ⟨h, by decide +kernel, models_extend shop.catalog crm {} [.declared] _ h⟩

end Walk

end ApiModels
