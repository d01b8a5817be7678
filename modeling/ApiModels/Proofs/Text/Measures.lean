import Mathlib.Algebra.GroupWithZero.Nat
import Mathlib.Algebra.Order.BigOperators.Group.List
import Mathlib.Algebra.Order.Group.Nat
import Mathlib.Data.List.Infix

/-!
# Measures of joined texts

The characters and the marks of a text are those of its parts and perhaps more: a mark may stand
across the place where two parts meet. A measure with this property, `Superadditive`, of a whole text
bounds the sum over the parts that separators cut it into (`Superadditive.sum_add_le`).
-/

namespace ApiModels.Text

variable {cs ds mark sep part : List Char} {parts : List (List Char)} {f g : List Char → Nat}

/-- The number of places of a text at which a mark begins. -/
def occurrences (mark cs : List Char) : Nat := cs.tails.countP mark.isPrefixOf

theorem occurrences_cons (mark : List Char) (c : Char) (cs : List Char) :
    occurrences mark (c :: cs) =
      occurrences mark cs + if mark.isPrefixOf (c :: cs) then 1 else 0 := List.countP_cons

/-- A measure that a joined text has at least as much of as its parts together. -/
def Superadditive (f : List Char → Nat) : Prop := ∀ cs ds, f cs + f ds ≤ f (cs ++ ds)

theorem superadditive_count (c : Char) : Superadditive (List.count c) := by
  intro cs ds
  rw [List.count_append]

theorem superadditive_occurrences (hmark : mark ≠ []) : Superadditive (occurrences mark) := by
  intro cs ds
  induction cs with
  | nil =>
    have hnone : occurrences mark [] = 0 := by simp [occurrences, hmark]
    rw [hnone, Nat.zero_add, List.nil_append]
  | cons c cs ih =>
    have hbegins : mark.isPrefixOf (c :: cs) = true → mark.isPrefixOf (c :: (cs ++ ds)) = true := by
      rw [List.isPrefixOf_iff_prefix, List.isPrefixOf_iff_prefix]
      intro h
      exact h.trans (List.prefix_append (c :: cs) ds)
    rw [List.cons_append, occurrences_cons, occurrences_cons]
    split
    · next h =>
      rw [if_pos (hbegins h)]
      omega
    · omega

namespace Superadditive

variable (hf : Superadditive f)
include hf

theorem add (hg : Superadditive g) : Superadditive fun cs => f cs + g cs := by
  intro cs ds
  change f cs + g cs + (f ds + g ds) ≤ f (cs ++ ds) + g (cs ++ ds)
  have hf' := hf cs ds
  have hg' := hg cs ds
  omega

theorem le_of_infix (h : cs <:+: ds) : f cs ≤ f ds := by
  obtain ⟨before, after, rfl⟩ := h
  have hbefore := hf before cs
  have hafter := hf (before ++ cs) after
  omega

theorem sum_add_le (sep : List Char) (parts : List (List Char)) :
    (parts.map f).sum + (parts.length - 1) * f sep ≤ f (List.intercalate sep parts) := by
  induction parts with
  | nil => simp
  | cons part parts ih =>
    cases parts with
    | nil => simp
    | cons next parts =>
      have hpart := hf (part ++ sep) (List.intercalate sep (next :: parts))
      have hsep := hf part sep
      rw [List.intercalate_cons_cons, List.map_cons, List.sum_cons, List.length_cons,
        Nat.add_sub_cancel]
      rw [List.length_cons, Nat.add_sub_cancel] at ih
      rw [List.length_cons, Nat.succ_mul]
      omega

theorem le_of_mem (h : part ∈ parts) : f part ≤ f (List.intercalate sep parts) := by
  have hsum := hf.sum_add_le sep parts
  have hmem : f part ≤ (parts.map f).sum := List.le_sum_of_mem (List.mem_map_of_mem h)
  omega

end Superadditive

end ApiModels.Text
