import ApiModels.Proofs.Walk.References

/-!
# Where models come from

Every model was registered for a type that the policy leaves open, under the name of that type and
with the properties of its kept members. The type is the root, or a registered type led to it before:
it is the type of one of its kept members, or the element type. Nothing is assumed of the names, so
an id alone does not tell which type its model was registered for; the log does.
-/

namespace ApiModels.Walk

variable {w : Walk} {root t : TypeRef} {ts : List TypeRef} {e : Expansion}
  {log earlier later : List Expansion} {models : ModelSet}

/-- What the model `m` says of the type `t`: the name of the type and the properties of its kept
members, of which there is at least one. -/
structure Documents (w : Walk) (t : TypeRef) (m : Model) : Prop where
  id : w.typeName? t = some m.id
  properties : ∀ name p, (name, p) ∈ m.properties.toList ↔
    ∃ k, w.Keeps t k ∧ k.name = name ∧ w.property k = p
  nonempty : m.properties.isEmpty = false

theorem documents_modelOf (h : w.expansion? t = some e) : w.Documents t (w.modelOf e) := by
  obtain ⟨hx, hd, hid⟩ := expansion?_eq_some_iff.1 h
  refine ⟨hid, fun name p => ?_, ?_⟩
  · simp only [modelOf, model, List.mem_map, Prod.mk.injEq, keeps_iff hd]
  · obtain ⟨k, hk⟩ := hx.keeps
    have := mem_properties ((keeps_iff hd).1 hk)
    exact List.isEmpty_eq_false_iff_exists_mem.2 ⟨_, this⟩

/-- A place in two lists joined is a place in the first or in the second. -/
private theorem split_append {α : Type} {a : α} {as bs front back : List α}
    (h : as ++ bs = front ++ a :: back) :
    (∃ rest, as = front ++ a :: rest) ∨ ∃ mid, front = as ++ mid ∧ bs = mid ++ a :: back := by
  rcases List.append_eq_append_iff.1 h with ⟨mid, hfront, hbs⟩ | ⟨rest, has, hback⟩
  · exact .inr ⟨mid, hfront, hbs⟩
  · cases rest with
    | nil => exact .inr ⟨[], by simpa using has.symm, by simpa using hback.symm⟩
    | cons b rest =>
      cases hback
      exact .inl ⟨rest, has⟩

/-- A registered type is one of those that the visits start from, or an earlier registered type leads
to it. -/
theorem Visits.exists_origin (h : w.Visits ts models log) (hlog : log = earlier ++ e :: later) :
    ∃ t, w.expansion? t = some e ∧ (t ∈ ts ∨ ∃ f ∈ earlier, t ∈ w.next f.declaration) := by
  -- the place of `e` in the log decides: at the head, below the head, or after that
  induction h generalizing earlier later with
  | nil => simp at hlog
  | skip _ _ ih =>
    obtain ⟨t, hte, ht | hf⟩ := ih hlog
    · exact ⟨t, hte, .inl (List.mem_cons_of_mem _ ht)⟩
    · exact ⟨t, hte, .inr hf⟩
  | @enter t ts models g below after hf _ _ ih ih' =>
    cases earlier with
    | nil =>
      cases hlog
      exact ⟨t, (fresh?_eq_some_iff.1 hf).1, .inl List.mem_cons_self⟩
    | cons g' front =>
      obtain ⟨rfl, hrest⟩ := List.cons.inj hlog
      rcases split_append hrest with ⟨rest, hbelow⟩ | ⟨mid, rfl, hafter⟩
      · obtain ⟨u, hue, hu | ⟨f, hf, hu⟩⟩ := ih hbelow
        · exact ⟨u, hue, .inr ⟨g, List.mem_cons_self, hu⟩⟩
        · exact ⟨u, hue, .inr ⟨f, List.mem_cons_of_mem _ hf, hu⟩⟩
      · obtain ⟨u, hue, hu | ⟨f, hf, hu⟩⟩ := ih' hafter
        · exact ⟨u, hue, .inl (List.mem_cons_of_mem _ hu)⟩
        · have : f ∈ g :: (below ++ mid) := by simp [hf]
          exact ⟨u, hue, .inr ⟨f, this, hu⟩⟩

/-- Every model has an origin, whatever names coincide: a declared type that no rule of the policy
closes, which is the root or which a kept member of an earlier registered type has as its type or
element type. The model has the name of that type as its id, which no other model has, and the
properties of its kept members. -/
theorem models_origin (w : Walk) (root : TypeRef) :
    (w.models root).ids.Nodup ∧
    ∃ log : List Expansion, w.Visits [root] .empty log ∧
      (w.models root).toList = log.map w.modelOf ∧
      ∀ earlier e later, log = earlier ++ e :: later →
        ∃ t, w.catalog.declaration? t = some e.declaration ∧
          w.policy.isTerminal w.catalog t = false ∧ w.policy.LeavesOpen w.catalog t ∧
          w.Documents t (w.modelOf e) ∧
          (t = root ∨ ∃ f ∈ earlier, ∃ m, w.Keeps f.declaration.typeRef m ∧ t ∈ m.types) := by
  obtain ⟨log, hlog, -, hlist⟩ := exists_log w root
  refine ⟨(w.models root).nodup, log, hlog, hlist, fun earlier e later hsplit => ?_⟩
  obtain ⟨t, hte, horigin⟩ := hlog.exists_origin hsplit
  obtain ⟨hx, hd, -⟩ := expansion?_eq_some_iff.1 hte
  refine ⟨t, hd, hx.isOpen, Opacity.isTerminal_eq_false_iff.1 hx.isOpen, documents_modelOf hte, ?_⟩
  rcases horigin with ht | ⟨f, hf, ht⟩
  · exact .inl (List.mem_singleton.1 ht)
  · have hmem : f ∈ log := by simp [hsplit, hf]
    obtain ⟨-, hfd, -⟩ := expansion?_eq_some_iff.1 (hlog.expansion?_of_mem hmem)
    obtain ⟨m, hm, ht⟩ := (mem_next hfd).1 ht
    exact .inr ⟨f, hf, m, hm, ht⟩

/-- The walk over a cart where the policy closes the first type of items. -/
def closedCart : Walk := { cart with policy := { types := ["shop.Item"] } }

/-- The model of items comes from the second type then, which has the same simple name. -/
theorem closedCart_models_origin : (closedCart.models { name := "Cart" }).ids = ["Cart", "Item"] ∧
    ∃ t m, closedCart.Keeps { name := "Cart" } m ∧ t ∈ m.types ∧ t.name = "stock.Item" ∧
      closedCart.typeName? t = some "Item" := by
  have hids : (closedCart.models { name := "Cart" }).ids = ["Cart", "Item"] := by decide +kernel
  have honly : ∀ d ∈ closedCart.catalog.declaration? { name := "Cart" },
      ∀ m ∈ (closedCart.members d).toList, ∀ t ∈ m.types,
        closedCart.policy.isTerminal closedCart.catalog t = false → t.name = "stock.Item" := by
    decide +kernel
  obtain ⟨-, log, -, hlist, horigin⟩ := models_origin closedCart { name := "Cart" }
  have hlog : log.map (·.id) = ["Cart", "Item"] := by
    rw [← hids, ModelSet.ids, KeyedList.keys, hlist, List.map_map]
    rfl
  obtain ⟨e, rest, rfl, -, hrest⟩ := List.map_eq_cons_iff.1 hlog
  obtain ⟨f, rest, rfl, hf, -⟩ := List.map_eq_cons_iff.1 hrest
  obtain ⟨-, hd, -, -, -, rfl | ⟨_, hnone, -⟩⟩ := horigin [] e (f :: rest) rfl
  · obtain ⟨t, -, hopen, -, hdoc, rfl | ⟨g, hg, m, hm, ht⟩⟩ := horigin [e] f rest rfl
    · have hid : closedCart.typeName? { name := "Cart" } = some "Item" := hf ▸ hdoc.id
      exact absurd hid (by decide +kernel)
    · cases List.mem_singleton.1 hg
      have hself : e.declaration.typeRef = { name := "Cart" } := by
        rw [Declaration.typeRef, (Catalog.declaration?_eq_some_iff.1 hd).2]
      rw [hself] at hm
      have hname := honly _ hd m ((keeps_iff hd).1 hm) t ht hopen
      exact ⟨hids, t, m, hm, ht, hname, hf ▸ hdoc.id⟩
  · cases hnone

end ApiModels.Walk
