import Mathlib.Data.List.Infix
import Mathlib.Data.List.TakeWhile
import ApiModels.TypeRef

/-!
# Simple names

The simple name of a type is what stands in its name behind the last `::`, and of this what stands
behind the last `.` (`simpleNameOf_eq_iff`). No mark is left in it, so a simple name is its own simple
name (`IsSimpleName.self`).
-/

namespace ApiModels.TypeRef

variable {mark cs rest : List Char} {sep : Char} {name simple : String}

/-- What stands in `cs` behind the last `mark`, or all of `cs` if `mark` does not stand in it. -/
inductive BehindLast (mark cs : List Char) : List Char → Prop
  /-- No place where `mark` stands leaves less behind it. -/
  | behind {before rest : List Char} (split : cs = before ++ mark ++ rest)
    (last : ∀ before' rest', cs = before' ++ mark ++ rest' → rest.length ≤ rest'.length) :
    BehindLast mark cs rest
  | whole (nowhere : ∀ before' rest', cs ≠ before' ++ mark ++ rest') : BehindLast mark cs cs

/-- The last part of a name whose parts stand between `::` or `.`. -/
def IsSimpleName (name simple : String) : Prop :=
  ∃ tail, BehindLast [':', ':'] name.toList tail ∧ BehindLast ['.'] tail simple.toList

namespace BehindLast

theorem unique {rest' : List Char} (h : BehindLast mark cs rest) (h' : BehindLast mark cs rest') :
    rest = rest' := by
  cases h with
  | whole nowhere =>
    cases h' with
    | whole _ => rfl
    | behind split' _ => exact (nowhere _ _ split').elim
  | behind split last =>
    cases h' with
    | whole nowhere => exact (nowhere _ _ split).elim
    | behind split' last' =>
      have hlength := Nat.le_antisymm (last _ _ split') (last' _ _ split)
      exact (List.append_inj' (split.symm.trans split') hlength).2

theorem suffix (h : BehindLast mark cs rest) : rest <:+ cs := by
  cases h with
  | behind split _ => exact ⟨_, split.symm⟩
  | whole _ => exact List.suffix_refl _

theorem nowhere (hmark : mark ≠ []) (h : BehindLast mark cs rest) (before' rest' : List Char) :
    rest ≠ before' ++ mark ++ rest' := by
  cases h with
  | whole nowhere => exact nowhere before' rest'
  | @behind before _ split last =>
    intro hrest
    have hle := last (before ++ mark ++ before') rest' (by rw [split, hrest]; simp)
    have hpos := List.length_pos_iff.2 hmark
    rw [hrest, List.length_append, List.length_append] at hle
    omega

end BehindLast

theorem behindLast_afterLast (sep : Char) (cs : List Char) :
    BehindLast [sep] cs (afterLast sep cs) := by
  by_cases hmem : sep ∈ cs
  · -- The last place of `sep` is the first one in the reversed text.
    obtain ⟨taken, left, hreverse, htaken⟩ :=
      List.eq_append_cons_of_mem (List.mem_reverse.2 hmem)
    have hcs : cs = left.reverse ++ [sep] ++ taken.reverse := by
      rw [← List.reverse_inj, hreverse]
      simp
    have hafter : afterLast sep cs = taken.reverse := by
      have hall : ∀ c ∈ taken, decide (c ≠ sep) = true := by
        rintro c hc
        exact decide_eq_true (ne_of_mem_of_not_mem hc htaken)
      rw [afterLast, hreverse, List.takeWhile_append_of_pos hall]
      simp
    rw [hafter]
    refine .behind hcs fun before' rest' hsplit => ?_
    by_contra hlt
    have hbehind : sep :: rest' <:+ cs := ⟨before', by rw [hsplit, List.append_assoc]; rfl⟩
    have hsuffix : sep :: rest' <:+ taken.reverse := by
      refine List.suffix_of_suffix_length_le hbehind ⟨_, hcs.symm⟩ ?_
      rw [List.length_cons]
      omega
    exact htaken (List.mem_reverse.1 (hsuffix.subset List.mem_cons_self))
  · have hafter : afterLast sep cs = cs := by
      have hall : ∀ c ∈ cs.reverse, decide (c ≠ sep) = true := by
        intro c hc
        exact decide_eq_true (ne_of_mem_of_not_mem (List.mem_reverse.1 hc) hmem)
      rw [afterLast, List.takeWhile_eq_self_iff.2 hall, List.reverse_reverse]
    rw [hafter]
    refine .whole fun before' rest' hsplit => hmem ?_
    rw [hsplit]
    simp

/-- The characters seen so far are what no `::` leaves less than, until one comes. -/
theorem behindLast_go (seen left : List Char)
    (last : ∀ before' rest', left.reverse ++ seen = before' ++ [':', ':'] ++ rest' →
      seen.length ≤ rest'.length) :
    BehindLast [':', ':'] (left.reverse ++ seen) (afterLastPath.go seen left) := by
  induction left generalizing seen with
  | nil =>
    refine .whole fun before' rest' hsplit => ?_
    have hle := last before' rest' hsplit
    have hlength := congrArg List.length hsplit
    simp at hlength
    omega
  | cons c left ih =>
    by_cases hmark : ∃ left', c :: left = ':' :: ':' :: left'
    · obtain ⟨left', hleft⟩ := hmark
      rw [hleft] at last ⊢
      rw [afterLastPath.go]
      have hsplit : (':' :: ':' :: left').reverse ++ seen = left'.reverse ++ [':', ':'] ++ seen := by
        simp
      exact .behind hsplit last
    · rw [afterLastPath.go]
      · have hcons : (c :: left).reverse ++ seen = left.reverse ++ (c :: seen) := by simp
        rw [hcons] at last ⊢
        refine ih (c :: seen) fun before' rest' hsplit => ?_
        have hle := last before' rest' hsplit
        rw [List.length_cons]
        refine Nat.lt_of_le_of_ne hle fun heq => hmark ?_
        -- A mark right before what was seen is the one at which the reading ends.
        rw [← hcons] at hsplit
        obtain ⟨hreverse, -⟩ := List.append_inj' hsplit heq
        refine ⟨before'.reverse, ?_⟩
        rw [← List.reverse_inj, hreverse]
        simp
      · rintro left' rfl hleft
        exact hmark ⟨left', by rw [hleft]⟩

theorem behindLast_afterLastPath (cs : List Char) :
    BehindLast [':', ':'] cs (afterLastPath cs) := by
  have h := behindLast_go [] cs.reverse fun _ _ _ => Nat.zero_le _
  rwa [List.reverse_reverse, List.append_nil] at h

theorem simpleNameOf_eq_iff : simpleNameOf name = simple ↔ IsSimpleName name simple := by
  have hname : IsSimpleName name (simpleNameOf name) :=
    ⟨_, behindLast_afterLastPath name.toList, by
      rw [simpleNameOf, String.toList_ofList]
      exact behindLast_afterLast '.' _⟩
  constructor
  · rintro rfl
    exact hname
  · rintro ⟨tail, htail, hsimple⟩
    obtain ⟨tail', htail', hsimple'⟩ := hname
    cases htail.unique htail'
    exact String.toList_inj.1 (hsimple'.unique hsimple)

theorem IsSimpleName.self (h : IsSimpleName name simple) : IsSimpleName simple simple := by
  obtain ⟨tail, htail, hsimple⟩ := h
  refine ⟨_, .whole fun before' rest' hsplit => ?_, .whole (hsimple.nowhere (by simp))⟩
  obtain ⟨before, hbefore⟩ := hsimple.suffix
  refine htail.nowhere (by simp) (before ++ before') rest' ?_
  rw [← hbefore, hsplit]
  simp only [List.append_assoc]

end ApiModels.TypeRef
