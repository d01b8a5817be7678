import ApiModels.Proofs.KeyedList

/-!
# Lists that calls build

A list grows by calls that offer one value or all values of another list. What it holds after any
calls depends on the values offered alone: of each key the first (`find?_built`), in the order in
which the keys first came up (`keys_built`). An offer of one value is answered by whether its key is
new (`answer_insert`).
-/

namespace ApiModels.KeyedList

variable {α : Type} {key : α → String} {r s : KeyedList α key} {a : α} {k : String}

/-- A call that adds to a list. -/
inductive Call (α : Type) (key : α → String) where
  /-- Offers one value. -/
  | insert (a : α)
  /-- Offers all values of a list. -/
  | extend (s : KeyedList α key)

namespace Call

/-- The values that a call offers, in order. -/
def offered : Call α key → List α
  | .insert a => [a]
  | .extend s => s.toList

/-- Does what a call asks. Only an offer of one value has an answer. -/
def perform (r : KeyedList α key) : Call α key → Option Bool × KeyedList α key
  | .insert a => ((r.offer a).1, (r.offer a).2)
  | .extend s => (none, r.extend s)

end Call

/-- Performs calls one after another; the answers come in their order. -/
def performAll (r : KeyedList α key) : List (Call α key) → List (Option Bool) × KeyedList α key
  | [] => ([], r)
  | call :: calls =>
    let (answer, r) := call.perform r
    let (answers, r) := performAll r calls
    (answer :: answers, r)

/-- The list that calls build from nothing. -/
def built (calls : List (Call α key)) : KeyedList α key := (performAll empty calls).2

variable {calls : List (Call α key)}

theorem perform_snd (r : KeyedList α key) (call : Call α key) :
    (call.perform r).2 = r.insertAll call.offered := by
  cases call <;> rfl

theorem performAll_snd (r : KeyedList α key) (calls : List (Call α key)) :
    (r.performAll calls).2 = r.insertAll (calls.flatMap Call.offered) := by
  induction calls generalizing r with
  | nil => rfl
  | cons call calls ih =>
    rw [List.flatMap_cons, insertAll_append, ← perform_snd]
    exact ih _

theorem performAll_append (r : KeyedList α key) (calls calls' : List (Call α key)) :
    (r.performAll (calls ++ calls')).1 =
      (r.performAll calls).1 ++ ((r.performAll calls).2.performAll calls').1 := by
  induction calls generalizing r with
  | nil => rfl
  | cons call calls ih => exact congrArg (_ :: ·) (ih _)

theorem length_performAll (r : KeyedList α key) (calls : List (Call α key)) :
    (r.performAll calls).1.length = calls.length := by
  induction calls generalizing r with
  | nil => rfl
  | cons call calls ih => exact congrArg (· + 1) (ih _)

theorem built_eq_ofList : built calls = ofList (calls.flatMap Call.offered) :=
  performAll_snd empty calls

theorem keys_built :
    (built calls).keys = ((calls.flatMap Call.offered).map key).eraseDups := by
  rw [built_eq_ofList, keys_ofList]

theorem find?_built (k : String) :
    (built calls).find? k = (calls.flatMap Call.offered).find? (key · == k) := by
  rw [built_eq_ofList, find?_ofList]

theorem mem_built : a ∈ (built calls).toList ↔
    (calls.flatMap Call.offered).find? (key · == key a) = some a := by
  rw [built_eq_ofList, mem_ofList]

theorem mem_keys_built : k ∈ (built calls).keys ↔ ∃ a ∈ calls.flatMap Call.offered, key a = k := by
  rw [keys_built, List.mem_eraseDups, List.mem_map]

/-- A value is added if and only if no value with its key was offered before. -/
theorem answer_insert (before after : List (Call α key)) (a : α) :
    (performAll empty (before ++ .insert a :: after)).1[before.length]? =
      some (some (decide (∀ b ∈ before.flatMap Call.offered, key b ≠ key a))) := by
  have hanswer : (!(built before).contains (key a)) =
      decide (∀ b ∈ before.flatMap Call.offered, key b ≠ key a) := by
    rw [Bool.eq_iff_iff, Bool.not_eq_true', ← Bool.not_eq_true, contains_iff, mem_keys_built]
    simp
  rw [performAll_append, ← length_performAll empty before, List.getElem?_append_right (Nat.le_refl _),
    Nat.sub_self, ← hanswer]
  rfl

/-- A list that was joined once adds nothing. -/
theorem built_extend_of_mem (h : .extend s ∈ calls) : (built calls).extend s = built calls := by
  refine extend_of_subset fun k hk => ?_
  obtain ⟨a, ha, rfl⟩ := List.mem_map.1 hk
  exact mem_keys_built.2 ⟨a, List.mem_flatMap.2 ⟨_, h, ha⟩, rfl⟩

end ApiModels.KeyedList
