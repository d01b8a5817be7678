import ApiModels.Proofs.Walk.Exactness

/-!
# One walk for several roots

The models of several roots, found one by one and merged in order, are those of one walk that goes
on from root to root with the models it has. The later roots find less in that walk because it
prunes what the earlier ones have found, and that is closed: with a type it holds everything below
the type (`Walk.Closed`). So what is pruned is exactly what the merge drops.
-/

namespace ApiModels.Walk

variable {w : Walk} {root t : TypeRef} {ts roots : List TypeRef} {e : Expansion}
  {log : List Expansion} {models both found : ModelSet}

/-- A model set that holds a model of every type below the types that it has models of. -/
def Closed (w : Walk) (models : ModelSet) : Prop := ∀ t e, w.expansion? t = some e →
  e.id ∈ models.ids → ∀ u ∈ w.next e.declaration, ∀ f, w.expansion? u = some f → f.id ∈ models.ids

theorem closed_empty : w.Closed .empty := fun _ _ _ h => nomatch h

theorem Visits.closed (h : w.Visits ts models log) (apart : w.NamesApart)
    (closed : w.Closed models) : w.Closed (w.record models log) := by
  intro t e he hid u hu f hf
  rcases mem_keys_record.1 hid with hid | ⟨g, hg, hid⟩
  · exact mem_keys_record.2 (.inl (closed t e he hid u hu f hf))
  · cases apart.eq_of_id (h.expansion?_of_mem hg) he hid
    exact h.mem_keys_of_next hg hu hf

/-- Visits that start within a closed set stay in it. -/
theorem Visits.mem_ids_of_closed (h : w.Visits ts models log) (closed : w.Closed found)
    (start : ∀ t ∈ ts, ∀ e, w.expansion? t = some e → e.id ∈ found.ids) :
    ∀ e ∈ log, e.id ∈ found.ids := by
  suffices hlog : ∀ e ∈ log, (∃ t, w.expansion? t = some e) ∧ e.id ∈ found.ids from
    fun e he => (hlog e he).2
  refine h.forall_mem ?_ ?_
  · rintro e f ⟨⟨t, he⟩, hid⟩ hf
    obtain ⟨u, hu, hf⟩ := mem_successors.1 hf
    exact ⟨⟨u, hf⟩, closed t e he hid u hu f hf⟩
  · intro e he
    obtain ⟨t, ht, he⟩ := List.mem_filterMap.1 he
    exact ⟨⟨t, he⟩, start t ht e he⟩

/-- The ids that are taken after the new part of a log, if those of `found` were taken before. -/
theorem mem_keys_record_filter (w : Walk) (log : List Expansion)
    (h : ∀ k, k ∈ both.keys ↔ k ∈ found.keys ∨ k ∈ models.keys) (k : String) :
    k ∈ (w.record both (log.filter (·.id ∉ found.keys))).keys ↔
      k ∈ found.keys ∨ k ∈ (w.record models log).keys := by
  rw [mem_keys_record, mem_keys_record, h, or_assoc]
  by_cases hk : k ∈ found.keys
  · simp only [hk, true_or]
  refine or_congr_right (or_congr_right ⟨?_, ?_⟩)
  · rintro ⟨e, he, rfl⟩
    exact ⟨e, (List.mem_filter.1 he).1, rfl⟩
  · rintro ⟨e, he, rfl⟩
    exact ⟨e, List.mem_filter.2 ⟨he, by simpa using hk⟩, rfl⟩

/-- Where the ids of a closed set are taken in addition, the same visits register what is not in
that set, in the same order. -/
theorem Visits.filter (h : w.Visits ts models log) (closed : w.Closed found)
    (hboth : ∀ k, k ∈ both.keys ↔ k ∈ found.keys ∨ k ∈ models.keys) :
    w.Visits ts both (log.filter (·.id ∉ found.keys)) := by
  -- `hboth` is kept by every step, as `mem_keys_record_filter` says
  induction h generalizing both with
  | nil => exact .nil
  | skip hf _ ih =>
    refine .skip (fresh?_eq_none_iff.2 fun e he => ?_) (ih hboth)
    exact (hboth _).2 (.inr (fresh?_eq_none_iff.1 hf e he))
  | @enter t ts models e below after hf hbelow _ ih ih' =>
    obtain ⟨he, hid⟩ := fresh?_eq_some_iff.1 hf
    have hrest := mem_keys_record_filter w (e :: below) hboth
    by_cases hfound : e.id ∈ found.keys
    · -- the closed set has the type, so it has all that is below it
      have hlow : ∀ g ∈ e :: below, g.id ∈ found.keys := by
        intro g hg
        rcases List.mem_cons.1 hg with rfl | hg
        · exact hfound
        · exact hbelow.mem_ids_of_closed closed (closed t e he hfound) g hg
      have hnone : (e :: below).filter (·.id ∉ found.keys) = [] :=
        List.filter_eq_nil_iff.2 fun g hg => by simpa using hlow g hg
      rw [← List.cons_append, List.filter_append, hnone]
      rw [hnone] at hrest
      refine .skip (fresh?_eq_none_iff.2 fun f hf => ?_) (ih' hrest)
      cases he.symm.trans hf
      exact (hboth _).2 (.inl hfound)
    · have hkeep (l : List Expansion) :
          (e :: l).filter (·.id ∉ found.keys) = e :: l.filter (·.id ∉ found.keys) :=
        List.filter_cons_of_pos (by simpa using hfound)
      have hone := mem_keys_record_filter w [e] hboth
      rw [hkeep, List.filter_append]
      rw [hkeep] at hrest hone
      refine .enter (fresh?_eq_some_iff.2 ⟨he, fun hmem => ?_⟩) (ih hone) (ih' hrest)
      exact ((hboth _).1 hmem).elim hfound hid

/-- From a closed set a visit adds what a merge with the models of the root adds. -/
theorem visit_eq_merge (closed : w.Closed found) :
    w.visit root found = ModelSet.merge found (w.models root) := by
  obtain ⟨log, hlog, -, hlist⟩ := exists_log w root
  obtain ⟨new, hnew, hvisit⟩ := exists_visits w root found
  cases hnew.unique (hlog.filter closed (by simp))
  calc w.visit root found
      = KeyedList.insertAll found ((log.filter (·.id ∉ found.keys)).map w.modelOf) := hvisit
    _ = KeyedList.insertAll found ((log.map w.modelOf).filter (·.id ∉ found.keys)) := by
      rw [List.filter_map]
      rfl
    _ = ModelSet.merge found (w.models root) := by
      rw [KeyedList.insertAll_filter_not_mem fun _ h => h, ← hlist]
      rfl

theorem foldl_merge_eq_foldl_visit (apart : w.NamesApart) (closed : w.Closed found) :
    roots.foldl (fun found root => ModelSet.merge found (w.models root)) found =
      roots.foldl (fun found root => w.visit root found) found := by
  induction roots generalizing found with
  | nil => rfl
  | cons root roots ih =>
    obtain ⟨log, hlog, hvisit⟩ := exists_visits w root found
    rw [List.foldl_cons, List.foldl_cons, ← visit_eq_merge closed]
    exact ih (hvisit ▸ hlog.closed apart closed)

/-- Where names tell types apart, the merged models of several roots are those of one walk through
all roots, in the same order. -/
theorem mergedModels_eq_foldl_visit (w : Walk) (roots : List TypeRef) (apart : w.NamesApart) :
    w.mergedModels roots = roots.foldl (fun found root => w.visit root found) .empty :=
  foldl_merge_eq_foldl_visit apart closed_empty

theorem shop_mergedModels : shop.NamesApart ∧
    (shop.mergedModels [{ name := "shop.Party" }, { name := "shop.Line" }]).ids =
      ["Party", "Address", "Line", "Order", "Customer"] ∧
    shop.mergedModels [{ name := "shop.Party" }, { name := "shop.Line" }] =
      shop.visit { name := "shop.Line" } (shop.visit { name := "shop.Party" } .empty) := by
  have apart : shop.NamesApart := by decide +kernel
  exact ⟨apart, by decide +kernel, mergedModels_eq_foldl_visit shop _ apart⟩

end ApiModels.Walk
