import ApiModels.Proofs.Walk.Exactness

/-!
# Visits append

A visit may start from any model set, also from one that no walk finds and whose ids belong to other
types. It leaves the models that are there in their places and puts new ones behind them
(`Walk.visit_appends`). Afterwards the visited type is no longer fresh, whatever the reason, so the
same visit has nothing more to do.
-/

namespace ApiModels.Walk

variable {w : Walk} {t : TypeRef} {ts : List TypeRef} {d : Declaration} {e : Expansion}
  {log : List Expansion} {models : ModelSet} {id : String}

/-- What a visit registers has ids that were free. -/
theorem Visits.id_not_mem (h : w.Visits ts models log) (he : e ∈ log) : e.id ∉ models.keys := by
  have hnodup := (w.record models log).nodup
  rw [h.toList_record, List.map_append, List.nodup_append] at hnodup
  have hmem : e.id ∈ (log.map w.modelOf).map Model.id :=
    List.mem_map_of_mem (List.mem_map_of_mem he)
  exact fun hid => hnodup.2.2 e.id hid e.id hmem rfl

/-- A type that is not fresh is passed over at every depth. -/
theorem visit?_of_fresh?_eq_none (h : w.fresh? t models = none) (depth : Nat) :
    w.visit? (depth + 1) t models = some models := by
  rw [visit?_succ, h]

/-- A type that was visited is not fresh. -/
theorem Visits.fresh?_eq_none (h : w.Visits ts models log) (ht : t ∈ ts) :
    w.fresh? t (w.record models log) = none :=
  fresh?_eq_none_iff.2 fun _ he => h.mem_keys_of_mem ht he

/-- A model with a property is that of an expansion. -/
theorem expansion?_of_properties (hopen : w.policy.isTerminal w.catalog t = false)
    (hd : w.catalog.declaration? t = some d) (hid : w.typeName? t = some id)
    (hproperties : (w.model id d).properties.toList ≠ []) : w.expansion? t = some ⟨d, id⟩ := by
  obtain ⟨m, hm⟩ := List.exists_mem_of_ne_nil _ (mt List.map_eq_nil_iff.2 hproperties)
  exact expansion?_eq_some_iff.2 ⟨⟨hopen, ⟨id, hid⟩, ⟨m, (keeps_iff hd).2 hm⟩⟩, hd, hid⟩

/-- A fresh type is the first that is registered. -/
theorem Visits.head?_log (h : w.Visits (t :: ts) models log) (hf : w.fresh? t models = some e) :
    log.head? = some e := by
  cases h with
  | skip hnone => cases hnone.symm.trans hf
  | enter hsome =>
    cases hsome.symm.trans hf
    rfl

/-- From every model set a visit ends at a depth that the number of declarations bounds. It leaves
the models of the set in their places and adds models behind them, under ids that the set does not
have; a type that is neither terminal nor nameless, has a property and an id that the set does not
have comes first among them. The same visit once more changes nothing. -/
theorem visit_appends (w : Walk) (t : TypeRef) (models : ModelSet) :
    ∃ added : List Model,
      (∀ extra, w.visit? (KeyedList.size w.catalog + 1 + extra) t models =
        some (w.visit t models)) ∧
      (w.visit t models).toList = models.toList ++ added ∧
      (∀ m ∈ added, m.id ∉ models.ids) ∧
      (∀ d id, w.policy.isTerminal w.catalog t = false → w.catalog.declaration? t = some d →
        w.typeName? t = some id → (w.model id d).properties.toList ≠ [] → id ∉ models.ids →
        added.head? = some (w.model id d)) ∧
      ∀ extra, w.visit? (KeyedList.size w.catalog + 1 + extra) t (w.visit t models) =
        some (w.visit t models) := by
  obtain ⟨log, hlog, hvisit⟩ := exists_visits w t models
  refine ⟨log.map w.modelOf, fun extra => ?_, ?_, ?_, ?_, fun extra => ?_⟩
  · have := free_le_size w models
    exact visit?_eq_visit (by omega)
  · rw [hvisit, hlog.toList_record]
  · intro m hm
    obtain ⟨e, he, rfl⟩ := List.mem_map.1 hm
    exact hlog.id_not_mem he
  · intro d id hopen hd hid hproperties hfree
    have hexpansion := expansion?_of_properties hopen hd hid hproperties
    have hfirst := hlog.head?_log (fresh?_eq_some_iff.2 ⟨hexpansion, hfree⟩)
    rw [List.head?_map, hfirst]
    rfl
  · rw [hvisit, Nat.add_right_comm]
    exact visit?_of_fresh?_eq_none (hlog.fresh?_eq_none List.mem_cons_self) _

/-- Models of other sources, two of them under ids that types of the shop have too. -/
def depot : ModelSet :=
  .ofList [{ id := "Line" }, { id := "Depot" },
    { id := "Address", properties := .ofList [("zip", .typed "String" "" none)] }]

theorem shop_visit_appends : ∃ added : List Model,
    (shop.visit { name := "shop.Order" } depot).toList = depot.toList ++ added ∧
    added.map (·.id) = ["Order", "Customer"] ∧
    (∃ d ∈ shop.catalog.declarations, d.name = "shop.Order" ∧
      added.head? = some (shop.model "Order" d)) ∧
    shop.visit? 6 { name := "shop.Order" } (shop.visit { name := "shop.Order" } depot) =
      some (shop.visit { name := "shop.Order" } depot) := by
  obtain ⟨added, -, hlist, -, hfirst, hagain⟩ := visit_appends shop { name := "shop.Order" } depot
  obtain ⟨d, hd, hname, hdeclared, hproperties⟩ : ∃ d ∈ shop.catalog.declarations,
      d.name = "shop.Order" ∧ shop.catalog.declaration? { name := "shop.Order" } = some d ∧
        (shop.model "Order" d).properties.toList ≠ [] := by decide +kernel
  have hids : depot.toList.map (·.id) ++ added.map (·.id) =
      depot.toList.map (·.id) ++ ["Order", "Customer"] := by
    rw [← List.map_append, ← hlist]
    decide +kernel
  refine ⟨added, hlist, List.append_cancel_left hids, ⟨d, hd, hname, ?_⟩, hagain 0⟩
  exact hfirst d "Order" (by decide +kernel) hdeclared (by decide +kernel) hproperties
    (by decide +kernel)

end ApiModels.Walk
