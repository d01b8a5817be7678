import Mathlib.Data.List.Forall2
import ApiModels.KeyedList

/-!
# Lists that correspond

Two lists correspond under a relation if they have the same length and it relates their members one
by one. What depends on nothing else but what related members share is the same for both.
-/

namespace ApiModels

variable {α β : Type} {r : α → α → Prop} {as bs : List α}

theorem map_eq_of_forall₂ {g : α → β} (hg : ∀ a b, r a b → g b = g a) (h : List.Forall₂ r as bs) :
    bs.map g = as.map g := by
  induction h with
  | nil => rfl
  | cons h _ ih => rw [List.map_cons, List.map_cons, hg _ _ h, ih]

theorem filterMap_eq_of_forall₂ {g : α → Option β} (hg : ∀ a b, r a b → g b = g a)
    (h : List.Forall₂ r as bs) : bs.filterMap g = as.filterMap g := by
  rw [← Function.id_comp g, ← List.filterMap_map, map_eq_of_forall₂ hg h, List.filterMap_map]

section

variable {p : α → Bool} (hp : ∀ a b, r a b → p b = p a)

include hp

theorem find?_of_forall₂ (h : List.Forall₂ r as bs) :
    Option.Rel r (as.find? p) (bs.find? p) := by
  induction h with
  | nil => exact .none
  | @cons a b _ _ h _ ih =>
    rw [List.find?_cons, List.find?_cons, hp a b h]
    cases p a with
    | true => exact .some h
    | false => exact ih

theorem forall₂_eraseP (h : List.Forall₂ r as bs) : List.Forall₂ r (as.eraseP p) (bs.eraseP p) := by
  induction h with
  | nil => exact .nil
  | @cons a b _ _ h hrest ih =>
    rw [List.eraseP_cons, List.eraseP_cons, hp a b h]
    cases p a with
    | true => exact hrest
    | false => exact .cons h ih

end

namespace KeyedList

variable {key : α → String} {s t : KeyedList α key} {a b : α}
  (hkey : ∀ a b, r a b → key b = key a)

include hkey

theorem forall₂_insert (hst : List.Forall₂ r s.toList t.toList) (hab : r a b) :
    List.Forall₂ r (s.insert a).toList (t.insert b).toList := by
  have hcontains : t.contains (key b) = s.contains (key a) := by
    rw [Bool.eq_iff_iff, contains_iff, contains_iff, keys, keys, map_eq_of_forall₂ hkey hst,
      hkey a b hab]
  rw [toList_insert, toList_insert, hcontains]
  split
  · exact hst
  · exact List.rel_append hst (.cons hab .nil)

theorem forall₂_insertAll (hst : List.Forall₂ r s.toList t.toList) (h : List.Forall₂ r as bs) :
    List.Forall₂ r (s.insertAll as).toList (t.insertAll bs).toList := by
  induction h generalizing s t with
  | nil => exact hst
  | cons hab _ ih => exact ih (forall₂_insert hkey hst hab)

/-- Of lists that correspond, the first members of each key correspond. -/
theorem forall₂_ofList (h : List.Forall₂ r as bs) :
    List.Forall₂ r (ofList as : KeyedList α key).toList (ofList bs : KeyedList α key).toList :=
  forall₂_insertAll hkey .nil h

end KeyedList

end ApiModels
