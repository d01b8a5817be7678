import ApiModels.Model
import ApiModels.Proofs.KeyedList.Calls

/-!
# Sets of models

Whatever insertions and merges a set of models is built by, of each id the first model offered is
kept, in the order in which the ids came up. The laws of merging follow: sets may be merged in any
groups and a second time without any effect, and in any order if and only if they agree on the ids
that they share.
-/

namespace ApiModels

theorem Model.same_self (m : Model) : m.same m = true := by
  rw [Model.same, beq_self_eq_true, Bool.true_and]
  exact KeyedList.equalUpToOrder_of_mem_iff beq_self_eq_true fun _ => Iff.rfl

namespace ModelSet

open KeyedList

variable {a b : ModelSet}

/-- In which order two sets are merged matters, the order of models aside, only for models with a
shared id. -/
theorem same_merge_comm_iff : (merge a b).same (merge b a) = true ↔
    ∀ m ∈ a.toList, ∀ n ∈ b.toList, m.id = n.id → m.same n = true :=
  extend_comm_iff Model.same_self

/-- Calls build a set with one model for each id that they offer, the first one offered with this id,
in the order in which the ids were first offered, and an insertion answers whether its model is that
one. Merging is associative, the set without models is its unit, and a set that was merged once adds
nothing; two sets merged in one or in the other order are equal up to order if and only if their
models with a shared id are. -/
theorem first_offered :
    (∀ calls : List (Call Model Model.id),
      ids (built calls) = ((calls.flatMap Call.offered).map Model.id).eraseDups ∧
      (∀ m, m ∈ (built calls).toList ↔
        (calls.flatMap Call.offered).find? (·.id == m.id) = some m) ∧
      ∀ id, find? (built calls) id = (calls.flatMap Call.offered).find? (·.id == id)) ∧
    (∀ (before after : List (Call Model Model.id)) (m : Model),
      (performAll empty (before ++ .insert m :: after)).1[before.length]? =
        some (some (decide (∀ n ∈ before.flatMap Call.offered, n.id ≠ m.id)))) ∧
    (∀ a b c : ModelSet, merge (merge a b) c = merge a (merge b c)) ∧
    (∀ a : ModelSet, merge empty a = a ∧ merge a empty = a) ∧
    (∀ a b : ModelSet, merge (merge a b) a = merge a b) ∧
    (∀ (before after : List (Call Model Model.id)) (b : ModelSet),
      merge (built (before ++ .extend b :: after)) b = built (before ++ .extend b :: after)) ∧
    ∀ a b : ModelSet, (merge a b).same (merge b a) = true ↔
      ∀ m ∈ a.toList, ∀ n ∈ b.toList, m.id = n.id → m.same n = true := by
  refine ⟨fun calls => ⟨keys_built, fun m => mem_built, find?_built⟩,
    fun before after m => answer_insert before after m, extend_assoc,
    fun a => ⟨empty_extend a, extend_empty a⟩, extend_extend_self, fun before after b => ?_,
    fun a b => same_merge_comm_iff⟩
  exact built_extend_of_mem (List.mem_append_right _ List.mem_cons_self)

end ModelSet

end ApiModels
