import Mathlib.Data.List.Basic
import ApiModels.Text.Lines

/-!
# Parts between separators

A text that is joined to another by a separator has the parts of both, whatever stands in them
(`splitChars_append_cons`). No separator is left in a part, and a text without one is a single part.
-/

namespace ApiModels.Text

variable {sep : Char} {cs part : List Char}

theorem splitChars_ne_nil : splitChars sep cs ≠ [] := by
  cases cs with
  | nil => exact List.cons_ne_nil _ _
  | cons c cs =>
    rw [splitChars]
    split
    · exact List.cons_ne_nil _ _
    · split <;> exact List.cons_ne_nil _ _

theorem splitChars_of_not_mem (h : sep ∉ part) : splitChars sep part = [part] := by
  induction part with
  | nil => rfl
  | cons c part ih =>
    rw [List.mem_cons, not_or] at h
    rw [splitChars, if_neg (Ne.symm h.1), ih h.2]

theorem splitChars_append_cons (sep : Char) (cs ds : List Char) :
    splitChars sep (cs ++ sep :: ds) = splitChars sep cs ++ splitChars sep ds := by
  induction cs with
  | nil => simp [splitChars]
  | cons c cs ih =>
    rw [List.cons_append, splitChars, splitChars, ih]
    split
    · rfl
    · cases hcs : splitChars sep cs with
      | nil => exact absurd hcs splitChars_ne_nil
      | cons first parts => rfl

theorem not_mem_of_mem_splitChars (h : part ∈ splitChars sep cs) : sep ∉ part := by
  induction cs generalizing part with
  | nil =>
    cases List.mem_singleton.1 h
    exact List.not_mem_nil
  | cons c cs ih =>
    rw [splitChars] at h
    split at h
    · rcases List.mem_cons.1 h with rfl | h
      · exact List.not_mem_nil
      · exact ih h
    · next hne =>
      cases hcs : splitChars sep cs with
      | nil => exact absurd hcs splitChars_ne_nil
      | cons first parts =>
        rw [hcs] at h ih
        rcases List.mem_cons.1 h with rfl | h
        · apply List.not_mem_cons_of_ne_of_not_mem (Ne.symm hne)
          exact ih List.mem_cons_self
        · exact ih (List.mem_cons_of_mem first h)

theorem eq_nil_of_splitChars (h : splitChars sep cs = [[]]) : cs = [] := by
  cases cs with
  | nil => rfl
  | cons c cs =>
    rw [splitChars] at h
    split at h
    · exact absurd (List.cons.inj h).2 splitChars_ne_nil
    · split at h
      · cases h
      · cases h

end ApiModels.Text
