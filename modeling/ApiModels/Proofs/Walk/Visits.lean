import ApiModels.Proofs.Walk.Expansion

/-!
# The visits of a walk

`w.Visits ts models log` says, without a bound on the depth, which expansions are registered when
the types of `ts` are visited in turn. It is the relation that later proofs go by: every visit that
`Walk.visit?` completes has its log (`exists_visits_of_visit?`), a log is determined by where the
visits start (`Visits.unique`), and the models found are those of the log, in its order
(`Visits.toList_record`).
-/

namespace ApiModels.Walk

/-- The models of a log, added to `models`. -/
def record (w : Walk) (models : ModelSet) (log : List Expansion) : ModelSet :=
  KeyedList.insertAll models (log.map w.modelOf)

/-- Visiting the types of `ts` in turn, with `models` already found, registers the expansions of
`log` in order. -/
inductive Visits (w : Walk) : List TypeRef → ModelSet → List Expansion → Prop where
  | nil {models} : Visits w [] models []
  /-- A type without a model, or one whose id is taken, is passed over. -/
  | skip {t ts models log} : w.fresh? t models = none → Visits w ts models log →
    Visits w (t :: ts) models log
  /-- A fresh type is registered, then what is below it, then what comes after it. -/
  | enter {t ts models e below after} : w.fresh? t models = some e →
    Visits w (w.next e.declaration) (models.insert (w.modelOf e)) below →
    Visits w ts (w.record models (e :: below)) after →
    Visits w (t :: ts) models (e :: (below ++ after))

variable {w : Walk} {t : TypeRef} {ts us : List TypeRef} {e f : Expansion}
  {log below after : List Expansion} {models found : ModelSet} {k : String}

@[simp] theorem record_nil : w.record models [] = models := rfl

theorem record_cons : w.record models (e :: log) = w.record (models.insert (w.modelOf e)) log := rfl

theorem record_append :
    w.record models (below ++ after) = w.record (w.record models below) after := by
  rw [record, List.map_append, KeyedList.insertAll_append, record, record]

theorem mem_keys_record :
    k ∈ (w.record models log).keys ↔ k ∈ models.keys ∨ ∃ e ∈ log, e.id = k := by
  simp [record, KeyedList.mem_keys_insertAll]

namespace Visits

theorem append (h : w.Visits ts models below) (h' : w.Visits us (w.record models below) after) :
    w.Visits (ts ++ us) models (below ++ after) := by
  induction h generalizing after with
  | nil => exact h'
  | skip hf _ ih => exact .skip hf (ih h')
  | @enter t ts models e below rest hf hbelow _ _ ih =>
    rw [← List.cons_append, record_append] at h'
    rw [List.cons_append, List.cons_append, List.append_assoc]
    exact .enter hf hbelow (ih h')

/-- Where the visits start determines what they register. -/
theorem unique (h : w.Visits ts models below) (h' : w.Visits ts models after) : below = after := by
  induction h generalizing after with
  | nil => cases h'; rfl
  | skip hf _ ih =>
    cases h' with
    | skip _ h' => exact ih h'
    | enter hf' => cases hf.symm.trans hf'
  | enter hf _ _ ih ih' =>
    cases h' with
    | skip hf' => cases hf.symm.trans hf'
    | enter hf' h₁ h₂ =>
      cases hf.symm.trans hf'
      cases ih h₁
      cases ih' h₂
      rfl

/-- The models of a log come after those that were there. -/
theorem toList_record (h : w.Visits ts models log) :
    (w.record models log).toList = models.toList ++ log.map w.modelOf := by
  induction h with
  | nil => simp
  | skip _ _ ih => exact ih
  | @enter t ts models e below rest hf _ _ ih ih' =>
    obtain ⟨-, hid⟩ := fresh?_eq_some_iff.1 hf
    rw [← List.cons_append, record_append, ih', record_cons, ih,
      KeyedList.toList_insert_of_not_mem hid]
    simp

/-! ### What a log holds -/

theorem expansion?_of_mem (h : w.Visits ts models log) (he : e ∈ log) :
    w.expansion? e.declaration.typeRef = some e := by
  induction h with
  | nil => cases he
  | skip _ _ ih => exact ih he
  | enter hf _ _ ih ih' =>
    rcases List.mem_cons.1 he with rfl | he
    · exact (expansion?_typeRef (fresh?_eq_some_iff.1 hf).1).2.2
    · exact (List.mem_append.1 he).elim ih ih'

/-- Every visited type that gets a model has its id taken at the end. -/
theorem mem_keys_of_mem (h : w.Visits ts models log) (ht : t ∈ ts) (he : w.expansion? t = some e) :
    e.id ∈ (w.record models log).keys := by
  induction h with
  | nil => cases ht
  | @skip t' ts models log hf _ ih =>
    rcases List.mem_cons.1 ht with rfl | ht
    · exact mem_keys_record.2 (.inl (fresh?_eq_none_iff.1 hf e he))
    · exact ih ht
  | @enter t' ts models f below after hf _ _ _ ih =>
    rw [← List.cons_append, record_append]
    rcases List.mem_cons.1 ht with rfl | ht
    · by_cases hid : e.id ∈ models.keys
      · exact mem_keys_record.2 (.inl (mem_keys_record.2 (.inl hid)))
      · cases hf.symm.trans (fresh?_eq_some_iff.2 ⟨he, hid⟩)
        exact mem_keys_record.2 (.inl (mem_keys_record.2 (.inr ⟨e, List.mem_cons_self, rfl⟩)))
    · exact ih ht

/-- So has every type below a registered one: at the end no reference is left open. -/
theorem mem_keys_of_next (h : w.Visits ts models log) (he : e ∈ log)
    (ht : t ∈ w.next e.declaration) (hf : w.expansion? t = some f) :
    f.id ∈ (w.record models log).keys := by
  induction h with
  | nil => cases he
  | skip _ _ ih => exact ih he
  | @enter t' ts models g below after _ hbelow _ ih ih' =>
    rw [← List.cons_append, record_append]
    rcases List.mem_cons.1 he with rfl | he
    · exact mem_keys_record.2 (.inl (hbelow.mem_keys_of_mem ht hf))
    rcases List.mem_append.1 he with he | he
    · exact mem_keys_record.2 (.inl (ih he))
    · exact ih' he

end Visits

/-! ## Visits that end -/

private theorem exists_visits_of_foldlM {depth : Nat}
    (ih : ∀ {t models found}, w.visit? depth t models = some found →
      ∃ log, w.Visits [t] models log ∧ found = w.record models log)
    (h : ts.foldlM (fun found u => w.visit? depth u found) models = some found) :
    ∃ log, w.Visits ts models log ∧ found = w.record models log := by
  induction ts generalizing models with
  | nil =>
    cases h
    exact ⟨[], .nil, rfl⟩
  | cons t ts ihts =>
    rw [List.foldlM_cons, Option.bind_eq_bind, Option.bind_eq_some_iff] at h
    obtain ⟨between, ht, hts⟩ := h
    obtain ⟨below, hbelow, rfl⟩ := ih ht
    obtain ⟨after, hafter, rfl⟩ := ihts hts
    exact ⟨below ++ after, hbelow.append hafter, record_append.symm⟩

/-- A visit that ends has registered a log, whatever the depth. -/
theorem exists_visits_of_visit? {depth : Nat} (h : w.visit? depth t models = some found) :
    ∃ log, w.Visits [t] models log ∧ found = w.record models log := by
  induction depth generalizing t models found with
  | zero => cases h
  | succ depth ih =>
    rw [visit?_succ] at h
    cases hf : w.fresh? t models with
    | none =>
      rw [hf] at h
      cases h
      exact ⟨[], .skip hf .nil, rfl⟩
    | some e =>
      rw [hf] at h
      obtain ⟨below, hbelow, rfl⟩ := exists_visits_of_foldlM ih h
      refine ⟨e :: below, ?_, record_cons.symm⟩
      have := Visits.enter hf hbelow .nil
      rwa [List.append_nil] at this

end ApiModels.Walk
