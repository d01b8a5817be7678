import ApiModels.Proofs.Walk.Termination

/-!
# References between models

A property names the type of its member and the element type. Whenever one of these gets a model, a
model with its id is among those found, also where several types have one name and only the first of
them was registered.
-/

namespace ApiModels.Walk

variable {w : Walk} {t : TypeRef} {m : Member} {e : Expansion} {log : List Expansion}
  {models : ModelSet} {ts : List TypeRef}

/-- A type that gets a model has its id taken after the walk, if a registered type keeps a member of
that type or with that element type. -/
theorem Visits.exists_id (h : w.Visits ts models log) (he : e ∈ log)
    (hm : w.Keeps e.declaration.typeRef m) (ht : t ∈ m.types) (hx : w.Expandable t) :
    ∃ id ∈ (w.record models log).ids, w.typeName? t = some id := by
  obtain ⟨f, hf⟩ := hx.exists_expansion
  obtain ⟨-, hd, -⟩ := expansion?_eq_some_iff.1 (h.expansion?_of_mem he)
  obtain ⟨-, -, hid⟩ := expansion?_eq_some_iff.1 hf
  exact ⟨f.id, h.mem_keys_of_next he ((mem_next hd).2 ⟨m, hm, ht⟩) hf, hid⟩

theorem property_eq_typed {name description : String} {element : Option String}
    (h : w.property m = .typed name description element) :
    name = (w.typeName? m.type).getD m.type.simpleName ∧
      element = m.type.element?.bind w.typeName? := by
  simp only [property] at h
  split at h
  · cases h
    exact ⟨rfl, rfl⟩
  · split at h
    · cases h
      exact ⟨rfl, rfl⟩
    · cases h

/-- No walk leaves a reference open, whatever names coincide: of each registered type all kept
members are documented, and their types and element types have a model under their name if they get
a model at all. In particular the type name and the element of a typed property are ids then. -/
theorem models_referenced (w : Walk) (root : TypeRef) :
    ∃ log : List Expansion, w.Visits [root] .empty log ∧
      (w.models root).toList = log.map w.modelOf ∧
      ∀ e ∈ log, ∀ m, w.Keeps e.declaration.typeRef m →
        (m.name, w.property m) ∈ (w.modelOf e).properties.toList ∧
        (∀ t ∈ m.types, w.Expandable t →
          ∃ id ∈ (w.models root).ids, w.typeName? t = some id) ∧
        ∀ name description element, w.property m = .typed name description element →
          (w.Expandable m.type → name ∈ (w.models root).ids) ∧
          ∀ t, m.type.element? = some t → w.Expandable t →
            ∃ id ∈ (w.models root).ids, element = some id := by
  obtain ⟨log, hlog, hmodels, hlist⟩ := exists_log w root
  refine ⟨log, hlog, hlist, fun e he m hm => ?_⟩
  obtain ⟨-, hd, -⟩ := expansion?_eq_some_iff.1 (hlog.expansion?_of_mem he)
  have hid (t) (ht : t ∈ m.types) (hx : w.Expandable t) :
      ∃ id ∈ (w.models root).ids, w.typeName? t = some id := by
    rw [hmodels]
    exact hlog.exists_id he hm ht hx
  refine ⟨mem_properties ((keeps_iff hd).1 hm), hid, fun name description element hp => ?_⟩
  obtain ⟨rfl, rfl⟩ := property_eq_typed hp
  constructor
  · intro hx
    obtain ⟨id, hmem, hname⟩ := hid m.type List.mem_cons_self hx
    rwa [hname]
  · intro t ht hx
    have hmem : t ∈ m.types := by simp [Member.types, ht]
    obtain ⟨id, hmem, hname⟩ := hid t hmem hx
    exact ⟨id, hmem, by rw [ht, Option.bind_some, hname]⟩

/-- A walk over a cart with two types of items, which have one simple name. -/
def cart : Walk where
  catalog := .ofList [
    { name := "Cart"
      fields := [
        { name := "first", type := { name := "shop.Item" } },
        { name := "rest", type := ⟨"java.util.List", [{ name := "stock.Item" }]⟩ }] },
    { name := "shop.Item", fields := [{ name := "price", type := { name := "double" } }] },
    { name := "stock.Item", fields := [{ name := "cart", type := { name := "Cart" } }] }]
  policy := {}
  chain := [.declared]

/-- The second type of items has no model of its own, but the reference to it is not open. -/
theorem cart_models_referenced : (cart.models { name := "Cart" }).ids = ["Cart", "Item"] ∧
    cart.Expandable { name := "stock.Item" } ∧
    ∃ id ∈ (cart.models { name := "Cart" }).ids,
      cart.typeName? { name := "stock.Item" } = some id := by
  have hx : cart.Expandable { name := "stock.Item" } := by decide +kernel
  refine ⟨by decide +kernel, hx, ?_⟩
  obtain ⟨e, he⟩ := Option.isSome_iff_exists.1
    (show (cart.fresh? { name := "Cart" } .empty).isSome = true by decide +kernel)
  have hname := (expansion?_typeRef (fresh?_eq_some_iff.1 he).1).2.1
  obtain ⟨log, hlog, -, h⟩ := models_referenced cart { name := "Cart" }
  cases hlog with
  | skip hf => cases hf.symm.trans he
  | enter hf =>
    cases hf.symm.trans he
    have hm : cart.Keeps e.declaration.typeRef
        ⟨"rest", ⟨"java.util.List", [{ name := "stock.Item" }]⟩, ""⟩ := by
      rw [Declaration.typeRef, hname]
      decide +kernel
    exact (h e List.mem_cons_self _ hm).2.1 _ (by simp [Member.types, TypeRef.element?]) hx

end ApiModels.Walk
