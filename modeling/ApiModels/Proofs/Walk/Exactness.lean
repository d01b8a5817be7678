import ApiModels.Proofs.DepthFirst
import ApiModels.Proofs.Walk.Termination

/-!
# What a walk finds

A walk prunes by the ids of the models that it has found. Where expandable types with different
qualified names have different ids, this is the same as pruning by types, so the walk is a
depth-first search of the graph whose vertices are the expandable types: it finds one model for each
of those that can be reached, in depth-first preorder, and no other.
-/

namespace ApiModels.Walk

/-- The types that are reached from a root: the root and, for every expandable one, the types of its
kept members and their first type arguments. -/
inductive Reachable (w : Walk) (root : TypeRef) : TypeRef → Prop where
  | root : Reachable w root root
  | step {t m u} : Reachable w root t → w.Expandable t → w.Keeps t m → u ∈ m.types →
    Reachable w root u

/-- The expansions below an expansion, member by member: the one of the member's type, then the one
of its first type argument. -/
def successors (w : Walk) (e : Expansion) : List Expansion :=
  (w.next e.declaration).filterMap w.expansion?

variable {w : Walk} {root t u : TypeRef} {e f : Expansion} {ts : List TypeRef}
  {log seen : List Expansion} {models : ModelSet}

theorem mem_successors : f ∈ w.successors e ↔
    ∃ u ∈ w.next e.declaration, w.expansion? u = some f :=
  List.mem_filterMap

/-- What is reached stays so along the types below an expansion. -/
theorem Reachable.of_next (ht : w.Reachable root t) (he : w.expansion? t = some e)
    (hu : u ∈ w.next e.declaration) : w.Reachable root u := by
  obtain ⟨hx, hd, -⟩ := expansion?_eq_some_iff.1 he
  obtain ⟨m, hm, hu⟩ := (mem_next hd).1 hu
  exact .step ht hx hm hu

/-! ## Pruning by ids is pruning by types -/

section
variable {P : Expansion → Prop}

/-- A log stays among the expansions that the visits start from. -/
theorem Visits.forall_mem (h : w.Visits ts models log)
    (closed : ∀ {e f}, P e → f ∈ w.successors e → P f)
    (start : ∀ e ∈ ts.filterMap w.expansion?, P e) : ∀ e ∈ log, P e := by
  induction h with
  | nil => exact fun _ he => nomatch he
  | skip _ _ ih =>
    refine ih fun e he => start e ?_
    obtain ⟨t, ht, hte⟩ := List.mem_filterMap.1 he
    exact List.mem_filterMap.2 ⟨t, List.mem_cons_of_mem _ ht, hte⟩
  | @enter t ts models e below after hf _ _ ih ih' =>
    obtain ⟨hte, -⟩ := fresh?_eq_some_iff.1 hf
    rw [List.filterMap_cons_some hte] at start
    have he := start e List.mem_cons_self
    intro f hmem
    rcases List.mem_cons.1 hmem with rfl | hmem
    · exact he
    rcases List.mem_append.1 hmem with hmem | hmem
    · exact ih (fun g hg => closed he hg) f hmem
    · exact ih' (fun g hg => start g (List.mem_cons_of_mem _ hg)) f hmem

/-- Taking the ids of `log` marks its expansions as seen, and no others that have names apart. -/
theorem mem_append_iff_mem_keys (w : Walk) (log : List Expansion)
    (apart : ∀ {e f}, P e → P f → e.id = f.id → e = f)
    (hseen : ∀ f, P f → (f ∈ seen ↔ f.id ∈ models.keys)) (hlog : ∀ e ∈ log, P e) :
    ∀ f, P f → (f ∈ log ++ seen ↔ f.id ∈ (w.record models log).keys) := by
  intro f hf
  rw [List.mem_append, mem_keys_record, hseen f hf, or_comm]
  refine or_congr_right ⟨fun hmem => ⟨f, hmem, rfl⟩, ?_⟩
  rintro ⟨e, he, hid⟩
  exact apart (hlog e he) hf hid ▸ he

/-- Visits are a depth-first search where ids tell expansions apart. -/
theorem Visits.depthFirst (h : w.Visits ts models log)
    (apart : ∀ {e f}, P e → P f → e.id = f.id → e = f)
    (closed : ∀ {e f}, P e → f ∈ w.successors e → P f)
    (start : ∀ e ∈ ts.filterMap w.expansion?, P e)
    (hseen : ∀ e, P e → (e ∈ seen ↔ e.id ∈ models.keys)) :
    DepthFirst w.successors seen (ts.filterMap w.expansion?) log := by
  -- `hseen` carries the induction: `models` grows by the same expansions as `seen`
  induction h generalizing seen with
  | nil => exact .nil
  | @skip t ts models log hf _ ih =>
    cases hte : w.expansion? t with
    | none =>
      rw [List.filterMap_cons_none hte] at start ⊢
      exact ih start hseen
    | some e =>
      rw [List.filterMap_cons_some hte] at start ⊢
      have hid := fresh?_eq_none_iff.1 hf e hte
      refine .seen ((hseen e (start e List.mem_cons_self)).2 hid) ?_
      exact ih (fun g hg => start g (List.mem_cons_of_mem _ hg)) hseen
  | @enter t ts models e below after hf hbelow _ ih ih' =>
    obtain ⟨hte, hid⟩ := fresh?_eq_some_iff.1 hf
    rw [List.filterMap_cons_some hte] at start ⊢
    have he := start e List.mem_cons_self
    have hlow : ∀ g ∈ e :: below, P g := by
      intro g hg
      rcases List.mem_cons.1 hg with rfl | hg
      · exact he
      · exact hbelow.forall_mem closed (fun f hf => closed he hf) g hg
    refine .new (mt (hseen e he).1 hid) ?_ ?_
    · refine ih (fun g hg => closed he hg) ?_
      exact mem_append_iff_mem_keys w [e] apart hseen (by simpa using he)
    · refine ih' (fun g hg => start g (List.mem_cons_of_mem _ hg)) ?_
      exact mem_append_iff_mem_keys w (e :: below) apart hseen hlow

end

/-! ## The models of a root -/

/-- The expansions of the types that are reached from a root. -/
def Reaches (w : Walk) (root : TypeRef) (e : Expansion) : Prop :=
  ∃ t, w.Reachable root t ∧ w.expansion? t = some e

theorem Reaches.of_start (he : e ∈ (w.expansion? root).toList) : w.Reaches root e :=
  ⟨root, .root, Option.mem_toList.1 he⟩

theorem Reaches.of_successors (he : w.Reaches root e) (hf : f ∈ w.successors e) :
    w.Reaches root f := by
  obtain ⟨t, ht, hte⟩ := he
  obtain ⟨u, hu, huf⟩ := mem_successors.1 hf
  exact ⟨u, ht.of_next hte hu, huf⟩

theorem Reaches.eq_of_id (he : w.Reaches root e) (hf : w.Reaches root f) (hid : e.id = f.id)
    (apart : ∀ s t id, w.Reachable root s → w.Reachable root t → w.Expandable s → w.Expandable t →
      w.typeName? s = some id → w.typeName? t = some id → s.name = t.name) : e = f := by
  obtain ⟨s, hs, hse⟩ := he
  obtain ⟨t, ht, htf⟩ := hf
  obtain ⟨hxs, -, hids⟩ := expansion?_eq_some_iff.1 hse
  obtain ⟨hxt, -, hidt⟩ := expansion?_eq_some_iff.1 htf
  exact expansion?_inj hse htf (apart s t e.id hs ht hxs hxt hids (hid ▸ hidt))

/-- A depth-first search from the root meets the expansions of just the types that are reached. -/
theorem mem_iff_reaches (h : DepthFirst w.successors [] (w.expansion? root).toList log) :
    e ∈ log ↔ w.Reaches root e := by
  rw [h.mem_iff_reachable]
  constructor
  · rintro ⟨s, hs, hr⟩
    induction hr with
    | refl => exact .of_start hs
    | tail _ hf ih => exact ih.of_successors hf
  · rintro ⟨t, ht, he⟩
    induction ht generalizing e with
    | root => exact ⟨e, Option.mem_toList.2 he, .refl⟩
    | @step t m u _ hx hm hu ih =>
      obtain ⟨f, hf⟩ := hx.exists_expansion
      obtain ⟨-, hd, -⟩ := expansion?_eq_some_iff.1 hf
      obtain ⟨s, hs, hr⟩ := ih hf
      exact ⟨s, hs, hr.tail (mem_successors.2 ⟨u, (mem_next hd).2 ⟨m, hm, hu⟩, he⟩)⟩

theorem reaches_iff : w.Reaches root e ↔ ∃ t, w.Reachable root t ∧ w.Expandable t ∧
    w.catalog.declaration? t = some e.declaration ∧ w.typeName? t = some e.id := by
  simp only [Reaches, expansion?_eq_some_iff]

/-- No declaration is registered twice. -/
theorem Visits.nodup_names (h : w.Visits ts models log) (hnodup : log.Nodup) :
    (log.map (·.declaration.name)).Nodup := by
  refine List.pairwise_map.2 (hnodup.imp_of_mem fun he hf hne hname => hne ?_)
  exact expansion?_inj (h.expansion?_of_mem he) (h.expansion?_of_mem hf) hname

/-- Where the reached types that get a model have ids of their own, the models of a root are those
of the expandable types that are reached, one for each qualified name, in depth-first preorder. -/
theorem models_depthFirst (w : Walk) (root : TypeRef)
    (apart : ∀ s t id, w.Reachable root s → w.Reachable root t → w.Expandable s → w.Expandable t →
      w.typeName? s = some id → w.typeName? t = some id → s.name = t.name) :
    ∃ order : List Expansion,
      (w.models root).toList = order.map w.modelOf ∧
      DepthFirst w.successors [] (w.expansion? root).toList order ∧
      (order.map (·.declaration.name)).Nodup ∧
      ∀ e, e ∈ order ↔ ∃ t, w.Reachable root t ∧ w.Expandable t ∧
        w.catalog.declaration? t = some e.declaration ∧ w.typeName? t = some e.id := by
  obtain ⟨order, hlog, -, hlist⟩ := exists_log w root
  have hroot : [root].filterMap w.expansion? = (w.expansion? root).toList := by
    cases h : w.expansion? root <;> simp [h]
  have hdf : DepthFirst w.successors [] (w.expansion? root).toList order := by
    rw [← hroot]
    refine hlog.depthFirst (P := w.Reaches root) (fun he hf hid => he.eq_of_id hf hid apart)
      .of_successors ?_ fun e _ => by simp
    rw [hroot]
    exact fun e he => .of_start he
  refine ⟨order, hlist, hdf, hlog.nodup_names hdf.nodup, fun e => ?_⟩
  rw [mem_iff_reaches hdf, reaches_iff]

/-- A walk over orders and customers, who refer to each other and have an address each. -/
def shop : Walk where
  catalog := .ofList [
    { name := "shop.Order"
      fields := [
        { name := "customer", type := { name := "shop.Customer" } },
        { name := "lines", type := ⟨"java.util.List", [{ name := "shop.Line" }]⟩ },
        { name := "to", type := { name := "shop.Address" } }] },
    { name := "shop.Line", fields := [{ name := "order", type := { name := "shop.Order" } }] },
    { name := "shop.Customer"
      superclass := some { name := "shop.Party" }
      methods := [
        { name := "getOrders", returns := ⟨"java.util.Set", [{ name := "shop.Order" }]⟩ }] },
    { name := "shop.Party", fields := [{ name := "home", type := { name := "shop.Address" } }] },
    { name := "shop.Address", fields := [{ name := "street", type := { name := "String" } }] }]
  policy := {}
  chain := [.declared]

theorem shop_models_depthFirst : shop.NamesApart ∧ ∃ order : List Expansion,
    order.map (·.id) = ["Order", "Customer", "Address", "Line"] ∧
      DepthFirst shop.successors [] (shop.expansion? { name := "shop.Order" }).toList order := by
  have apart : shop.NamesApart := by decide +kernel
  obtain ⟨order, hlist, hdf, -⟩ := models_depthFirst shop { name := "shop.Order" }
    fun s t id _ _ hs ht => apart s t id hs.isOpen ht.isOpen
  have hids : (shop.models { name := "shop.Order" }).ids = order.map (·.id) := by
    rw [ModelSet.ids, KeyedList.keys, hlist, List.map_map]
    rfl
  exact ⟨apart, order, hids.symm.trans (by decide +kernel), hdf⟩

end ApiModels.Walk
