import ApiModels.Proofs.Walk.Visits

/-!
# Walks end

A visit goes deeper only after it has registered a model, and the id of that model is the name of a
declaration whatever type arguments the visited reference has. So the number of declarations whose
ids are free (`Walk.free`) goes down with the depth, and it bounds the number of models too. A
lineage ends for the same reason: it goes on only with a name that it has not seen.

The main result is `Walk.visit?_eq_visit`: one level per declaration and one more suffice from
every model set, and more levels change nothing.
-/

namespace ApiModels

private theorem countP_lt_countP {α : Type} {p q : α → Bool} {as : List α} {a : α}
    (h : ∀ b ∈ as, p b = true → q b = true) (ha : a ∈ as) (hp : p a = false) (hq : q a = true) :
    as.countP p < as.countP q := by
  induction as with
  | nil => cases ha
  | cons b bs ih =>
    have hle : bs.countP p ≤ bs.countP q :=
      List.countP_mono_left fun c hc => h c (List.mem_cons_of_mem b hc)
    rw [List.countP_cons, List.countP_cons]
    rcases List.mem_cons.1 ha with rfl | ha
    · simp only [hp, hq]
      simp
      omega
    · have hlt := ih (fun c hc => h c (List.mem_cons_of_mem b hc)) ha
      cases hb : p b
      · simp
        omega
      · simp [h b List.mem_cons_self hb]
        omega

/-! ## Lineages -/

namespace Catalog

variable {c : Catalog} {d parent : Declaration} {seen : List String} {fuel : Nat}

/-- The number of declarations with a name that is not in `seen`. -/
def unseen (c : Catalog) (seen : List String) : Nat :=
  c.declarations.countP (·.name ∉ seen)

theorem unseen_cons_lt (hd : d ∈ c.declarations) (hs : d.name ∉ seen) :
    c.unseen (d.name :: seen) < c.unseen seen := by
  refine countP_lt_countP (fun b _ hb => ?_) hd (by simp) (by simpa using hs)
  rw [decide_eq_true_iff] at hb ⊢
  exact fun hmem => hb (List.mem_cons_of_mem _ hmem)

/-- A link of the lineage leads to a declaration of the catalog. -/
theorem mem_of_superclass (h : d.superclass.bind c.declaration? = some parent) :
    parent ∈ c.declarations := by
  obtain ⟨t, -, ht⟩ := Option.bind_eq_some_iff.1 h
  exact (declaration?_eq_some_iff.1 ht).1

theorem lineageFrom_of_mem (h : d.name ∈ seen) : c.lineageFrom fuel seen d = [] := by
  cases fuel with
  | zero => rfl
  | succ fuel => simp [lineageFrom, h]

private theorem lineageFrom_add (hd : d ∈ c.declarations) (h : c.unseen seen ≤ fuel) (extra : Nat) :
    c.lineageFrom (fuel + extra) seen d = c.lineageFrom fuel seen d := by
  induction fuel generalizing seen d with
  | zero =>
    have hs : d.name ∈ seen := by
      simpa using List.countP_eq_zero.1 (Nat.le_zero.1 h) d hd
    rw [lineageFrom_of_mem hs, lineageFrom_of_mem hs]
  | succ fuel ih =>
    by_cases hs : d.name ∈ seen
    · rw [lineageFrom_of_mem hs, lineageFrom_of_mem hs]
    · have hle : c.unseen (d.name :: seen) ≤ fuel :=
        Nat.le_of_lt_succ (Nat.lt_of_lt_of_le (unseen_cons_lt hd hs) h)
      rw [Nat.add_right_comm, lineageFrom, lineageFrom]
      cases hp : d.superclass.bind c.declaration? with
      | none => rfl
      | some parent => simp only [ih (mem_of_superclass hp) hle]

/-- A lineage has as many steps as it needs, also when superclass links form a cycle. -/
theorem lineageFrom_size (c : Catalog) (d : Declaration) (extra : Nat) :
    c.lineageFrom (KeyedList.size c + 1 + extra) [] d = c.lineage d := by
  rw [lineage, Nat.add_right_comm, lineageFrom, lineageFrom]
  cases hp : d.superclass.bind c.declaration? with
  | none => rfl
  | some parent =>
    have hle : c.unseen [d.name] ≤ KeyedList.size c := List.countP_le_length
    simp [lineageFrom_add (mem_of_superclass hp) hle]

end Catalog

/-! ## Visits -/

namespace Walk

variable {w : Walk} {t : TypeRef} {ts : List TypeRef} {e : Expansion} {log : List Expansion}
  {models : ModelSet} {depth : Nat}

/-- The number of declarations that a visit would register. -/
def free (w : Walk) (models : ModelSet) : Nat :=
  w.catalog.declarations.countP fun d => (w.fresh? d.typeRef models).isSome

theorem free_le_size (w : Walk) (models : ModelSet) : w.free models ≤ KeyedList.size w.catalog :=
  List.countP_le_length

theorem free_insert_lt (h : w.fresh? t models = some e) :
    w.free (models.insert (w.modelOf e)) < w.free models := by
  obtain ⟨he, hid⟩ := fresh?_eq_some_iff.1 h
  obtain ⟨hmem, -, hself⟩ := expansion?_typeRef he
  refine countP_lt_countP (fun d _ hd => ?_) hmem ?_ ?_
  · obtain ⟨f, hf⟩ := Option.isSome_iff_exists.1 hd
    obtain ⟨hf, hfid⟩ := fresh?_eq_some_iff.1 hf
    have := fresh?_eq_some_iff.2 ⟨hf, fun hk => hfid (KeyedList.mem_keys_insert.2 (.inl hk))⟩
    rw [this]
    rfl
  · rw [Option.isSome_eq_false_iff, Option.isNone_iff_eq_none, fresh?_eq_none_iff]
    intro f hf
    cases hself.symm.trans hf
    exact KeyedList.mem_keys_insert.2 (.inr rfl)
  · rw [fresh?_eq_some_iff.2 ⟨hself, hid⟩]
    rfl

/-- Every registration uses up one of the free declarations. -/
theorem Visits.free_add_length_le (h : w.Visits ts models log) :
    w.free (w.record models log) + log.length ≤ w.free models := by
  induction h with
  | nil => simp
  | skip _ _ ih => exact ih
  | @enter t ts models e below rest hf _ _ ih ih' =>
    have hlt := free_insert_lt hf
    rw [record_cons] at ih'
    rw [← List.cons_append, record_append, record_cons, List.length_append, List.length_cons]
    omega

private theorem exists_foldlM_visit? (h : w.free models < depth)
    (ih : ∀ {t models}, w.free models < depth → ∃ found, w.visit? depth t models = some found) :
    ∃ found, ts.foldlM (fun found u => w.visit? depth u found) models = some found := by
  induction ts generalizing models with
  | nil => exact ⟨models, rfl⟩
  | cons t ts ihts =>
    obtain ⟨between, ht⟩ := ih h
    obtain ⟨log, hlog, rfl⟩ := exists_visits_of_visit? ht
    have := hlog.free_add_length_le
    obtain ⟨found, hts⟩ := ihts (show w.free (w.record models log) < depth by omega)
    exact ⟨found, by rw [List.foldlM_cons, ht]; exact hts⟩

theorem exists_visit? (h : w.free models < depth) :
    ∃ found, w.visit? depth t models = some found := by
  induction depth generalizing t models with
  | zero => exact (Nat.not_lt_zero _ h).elim
  | succ depth ih =>
    rw [visit?_succ]
    cases hf : w.fresh? t models with
    | none => exact ⟨models, rfl⟩
    | some e =>
      have := free_insert_lt hf
      exact exists_foldlM_visit? (by omega) ih

/-- What a visit does is the registration of its log. -/
theorem exists_visits (w : Walk) (t : TypeRef) (models : ModelSet) :
    ∃ log, w.Visits [t] models log ∧ w.visit t models = w.record models log := by
  obtain ⟨found, hfound⟩ := exists_visit? (t := t) (Nat.lt_succ_of_le (free_le_size w models))
  rw [visit, hfound]
  exact exists_visits_of_visit? hfound

theorem visit?_eq_visit (h : w.free models < depth) :
    w.visit? depth t models = some (w.visit t models) := by
  obtain ⟨found, hfound⟩ := exists_visit? (t := t) h
  obtain ⟨log, hlog, rfl⟩ := exists_visits_of_visit? hfound
  obtain ⟨log', hlog', hvisit⟩ := exists_visits w t models
  rw [hfound, hvisit, hlog.unique hlog']

/-- The models of a walk are those of its log. -/
theorem exists_log (w : Walk) (root : TypeRef) : ∃ log, w.Visits [root] .empty log ∧
    w.models root = w.record .empty log ∧ (w.models root).toList = log.map w.modelOf := by
  obtain ⟨log, hlog, hvisit⟩ := exists_visits w root .empty
  exact ⟨log, hlog, hvisit, by rw [models, hvisit, hlog.toList_record]; rfl⟩

theorem size_models_le (w : Walk) (root : TypeRef) :
    KeyedList.size (w.models root) ≤ KeyedList.size w.catalog := by
  obtain ⟨log, hlog, -, hlist⟩ := exists_log w root
  have hsize : KeyedList.size (w.models root) = log.length := by
    rw [KeyedList.size, hlist, List.length_map]
  have := hlog.free_add_length_le
  have := free_le_size w .empty
  omega

/-- From every model set a visit ends within one level per declaration and one more, with the same
models at any greater depth; a walk finds no more models than there are declarations, and the
superclass links that it follows end within the same number of steps. -/
theorem visit?_size_add (w : Walk) (t : TypeRef) (models : ModelSet) (extra : Nat) :
    w.visit? (KeyedList.size w.catalog + 1 + extra) t models = some (w.visit t models) ∧
      KeyedList.size (w.models t) ≤ KeyedList.size w.catalog ∧
      ∀ d, w.catalog.lineageFrom (KeyedList.size w.catalog + 1 + extra) [] d =
        w.catalog.lineage d := by
  have hfree : w.free models < KeyedList.size w.catalog + 1 + extra := by
    have := free_le_size w models
    omega
  exact ⟨visit?_eq_visit hfree, size_models_le w t,
    fun d => Catalog.lineageFrom_size w.catalog d extra⟩

end Walk

end ApiModels
