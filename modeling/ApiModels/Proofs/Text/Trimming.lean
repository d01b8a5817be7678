import Mathlib.Data.List.DropRight
import ApiModels.Text.Blank

/-!
# White space at the ends of a text

Trimming leaves a part of the text that has no white space at its ends (`isTrimmed_trimChars`), and
just the texts without white space at their ends are left as they are (`trimChars_eq_self_iff`).
-/

namespace ApiModels.Text

variable {cs before after : List Char} {c : Char}

/-- Whether a text is nothing but white space. -/
def AllBlank (cs : List Char) : Prop := ∀ c ∈ cs, isBlank c = true

instance : Decidable (AllBlank cs) := decidable_of_iff (cs.all isBlank = true) List.all_eq_true

theorem allBlank_nil : AllBlank [] := fun _ hc => nomatch hc

theorem trimLeft_eq_self (h : ∀ c ∈ cs.head?, isBlank c = false) : trimLeft cs = cs := by
  cases cs with
  | nil => rfl
  | cons c cs =>
    have hc : isBlank c = false := h c rfl
    simp [trimLeft, hc]

theorem trimRight_eq_self (h : ∀ c ∈ cs.getLast?, isBlank c = false) : trimRight cs = cs := by
  have hreverse : trimLeft cs.reverse = cs.reverse := by
    apply trimLeft_eq_self
    rwa [List.head?_reverse]
  rw [trimRight]
  change (trimLeft cs.reverse).reverse = cs
  rw [hreverse, List.reverse_reverse]

theorem trimChars_eq_self (hhead : ∀ c ∈ cs.head?, isBlank c = false)
    (hlast : ∀ c ∈ cs.getLast?, isBlank c = false) : trimChars cs = cs := by
  rw [trimChars, trimLeft_eq_self hhead, trimRight_eq_self hlast]

theorem trimLeft_append (h : AllBlank before) : trimLeft (before ++ cs) = trimLeft cs :=
  List.dropWhile_append_of_pos h

theorem trimRight_append (h : AllBlank after) : trimRight (cs ++ after) = trimRight cs := by
  have hreverse : ∀ c ∈ after.reverse, isBlank c = true := fun c hc => h c (List.mem_reverse.1 hc)
  rw [trimRight, List.reverse_append, List.dropWhile_append_of_pos hreverse, trimRight]

/-- White space around a text is cut off with the text's own. -/
theorem trimChars_append (hbefore : AllBlank before) (hafter : AllBlank after) :
    trimChars (before ++ cs ++ after) = trimChars cs := by
  rw [trimChars, trimChars, List.append_assoc, trimLeft_append hbefore, trimLeft, trimLeft,
    List.dropWhile_append]
  split
  · next hempty =>
    have hall : after.dropWhile isBlank = [] := List.dropWhile_eq_nil_iff.2 hafter
    rw [List.isEmpty_iff.1 hempty, hall]
  · exact trimRight_append hafter

theorem trimChars_trimLeft (cs : List Char) : trimChars (trimLeft cs) = trimChars cs := by
  rw [trimChars, trimLeft, trimLeft, List.dropWhile_idempotent, trimChars, trimLeft]

/-- What ends in a mark keeps its end. -/
theorem trimChars_append_of_solid (hhead : ∀ c ∈ after.head?, isBlank c = false)
    (hne : after ≠ []) (hlast : ∀ c ∈ after.getLast?, isBlank c = false) :
    trimChars (cs ++ after) = trimLeft cs ++ after := by
  have hleft : trimLeft (cs ++ after) = trimLeft cs ++ after := by
    rw [trimLeft, List.dropWhile_append, trimLeft]
    split
    · next hempty =>
      rw [List.isEmpty_iff.1 hempty]
      exact trimLeft_eq_self hhead
    · rfl
  rw [trimChars, hleft]
  apply trimRight_eq_self
  rwa [List.getLast?_append_of_ne_nil _ hne]

theorem isPrefix_trimRight (cs : List Char) : trimRight cs <+: cs := by
  have hsuffix := List.dropWhile_suffix isBlank (l := cs.reverse)
  rwa [← List.reverse_prefix, List.reverse_reverse] at hsuffix

theorem isInfix_trimChars (cs : List Char) : trimChars cs <:+: cs :=
  (isPrefix_trimRight _).isInfix.trans (List.dropWhile_suffix _).isInfix

theorem isBlank_of_mem_getLast?_trimChars :
    ∀ c ∈ (trimChars cs).getLast?, isBlank c = false := by
  intro c hc
  have hfirst := List.head?_dropWhile_not isBlank (trimLeft cs).reverse
  rw [trimChars, trimRight, List.getLast?_reverse] at hc
  rw [hc] at hfirst
  simpa using hfirst

theorem isBlank_of_mem_head?_trimChars : ∀ c ∈ (trimChars cs).head?, isBlank c = false := by
  intro c hc
  have hfirst := List.head?_dropWhile_not isBlank cs
  obtain ⟨after, hafter⟩ : trimChars cs <+: trimLeft cs := isPrefix_trimRight _
  have hhead : c ∈ (trimLeft cs).head? := by
    rw [← hafter, List.head?_append, Option.mem_def.1 hc]
    exact Option.mem_some_self c
  rw [trimLeft] at hhead
  rw [Option.mem_def.1 hhead] at hfirst
  simpa using hfirst

theorem trimChars_eq_nil_iff : trimChars cs = [] ↔ AllBlank cs := by
  constructor
  · intro h
    have hleft : trimLeft cs = [] := by
      rw [trimChars, trimRight, List.reverse_eq_nil_iff, List.dropWhile_eq_nil_iff] at h
      have hfirst := List.head?_dropWhile_not isBlank cs
      cases hcs : trimLeft cs with
      | nil => rfl
      | cons c rest =>
        have hblank : isBlank c = true := h c (by simp [hcs])
        rw [trimLeft] at hcs
        simp [hcs, hblank] at hfirst
    exact List.dropWhile_eq_nil_iff.1 hleft
  · intro h
    rw [trimChars, trimLeft, List.dropWhile_eq_nil_iff.2 h]
    rfl

/-- Whether a text has no white space at its ends. -/
structure IsTrimmed (cs : List Char) : Prop where
  head : ∀ c ∈ cs.head?, isBlank c = false
  last : ∀ c ∈ cs.getLast?, isBlank c = false

theorem isTrimmed_trimChars (cs : List Char) : IsTrimmed (trimChars cs) :=
  ⟨isBlank_of_mem_head?_trimChars, isBlank_of_mem_getLast?_trimChars⟩

theorem trimChars_eq_self_iff : trimChars cs = cs ↔ IsTrimmed cs := by
  constructor
  · intro h
    rw [← h]
    exact isTrimmed_trimChars cs
  · intro h
    exact trimChars_eq_self h.head h.last

instance : Decidable (IsTrimmed cs) := decidable_of_iff _ trimChars_eq_self_iff

end ApiModels.Text
