import ApiModels.Proofs.Yaml.Words
import ApiModels.Yaml.Writer
import Mathlib.Data.List.Chain

/-!
# Indentation

The spaces of an indented line stand behind each run of line breaks.
-/

namespace ApiModels.Yaml

/-- What follows a node: nothing, or a line that begins with fewer than `n` spaces and is neither
blank nor a comment. -/
inductive Follows (n : Nat) : List Char → Prop where
  | nothing : Follows n []
  | line {j c cs} : j < n → Solid c → c ≠ '#' → Follows n (spaces j ++ c :: cs)

variable {p : Position} {c : Char} {cs as bs gap : List Char} {related : Char → Char → Bool}
  {n : Nat} {atStart : Bool}

/-! ## Spaces -/

theorem eq_space_of_mem_spaces (h : c ∈ spaces n) : c = ' ' := List.eq_of_mem_replicate h

theorem clean_spaces : Clean (spaces n) := fun _ h => eq_space_of_mem_spaces h ▸ rfl

theorem oneLine_spaces : OneLine (spaces n) := fun _ h => eq_space_of_mem_spaces h ▸ rfl

@[simp] theorem length_spaces : (spaces n).length = n := List.length_replicate

/-- The glyphs behind the spaces in front. -/
def dropSpaces (gs : List Glyph) : List Glyph := gs.dropWhile (·.char = ' ')

theorem dropSpaces_glyphs (hbegins : Begins Solid cs) :
    dropSpaces (p.glyphs (spaces n ++ cs)) = (p.after (spaces n)).glyphs cs := by
  have hspaces : ∀ g ∈ p.glyphs (spaces n), decide (g.char = ' ') = true := by
    intro g hg
    exact decide_eq_true (eq_space_of_mem_spaces (Position.char_mem_of_mem_glyphs clean_spaces hg))
  rw [Position.glyphs_append clean_spaces, dropSpaces, List.dropWhile_append_of_pos hspaces]
  cases cs with
  | nil => rfl
  | cons c cs =>
    have hc : Solid c := hbegins c rfl
    rw [Position.glyphs_cons hc.notSpecial, List.dropWhile_cons_of_neg (by simp [hc.notSpace])]

theorem Follows.mono {k : Nat} (h : Follows n cs) (hle : n ≤ k) : Follows k cs := by
  cases h with
  | nothing => exact .nothing
  | line hj hc hcomment => exact .line (Nat.lt_of_lt_of_le hj hle) hc hcomment

/-! ## Lines -/

theorem indentLines_append_oneLine (h : OneLine as) :
    indentLines n false (as ++ bs) = as ++ indentLines n false bs := by
  induction as with
  | nil => rfl
  | cons a as ih =>
    obtain ⟨ha, has⟩ := OneLine.cons.1 h
    rw [List.cons_append, indentLines, ha, ih has]
    rfl

theorem indentLines_oneLine (h : OneLine cs) : indentLines n false cs = cs := by
  rw [← List.append_nil cs, indentLines_append_oneLine h, indentLines]

theorem indentLines_append_breaks (h : ∀ c ∈ gap, isBreak c = true) (hne : gap ≠ []) :
    indentLines n atStart (gap ++ bs) = gap ++ indentLines n true bs := by
  induction gap generalizing atStart with
  | nil => exact absurd rfl hne
  | cons c gap ih =>
    obtain ⟨hc, hgap⟩ := List.forall_mem_cons.1 h
    rw [List.cons_append, indentLines, if_pos hc]
    cases gap with
    | nil => rfl
    | cons d gap => rw [ih hgap (List.cons_ne_nil _ _), List.cons_append (a := c)]

/-- The first line of an indented text begins with its spaces. -/
theorem indentLines_atStart (hbegins : Begins (isBreak · = false) cs) (hne : cs ≠ []) :
    indentLines n true cs = spaces n ++ indentLines n false cs := by
  cases cs with
  | nil => exact absurd rfl hne
  | cons c cs =>
    rw [indentLines, indentLines, hbegins c rfl]
    rfl

theorem clean_indentLines (h : Clean cs) : Clean (indentLines n atStart cs) := by
  induction cs generalizing atStart with
  | nil => exact Clean.nil
  | cons c cs ih =>
    obtain ⟨hc, hcs⟩ := Clean.cons.1 h
    rw [indentLines]
    split
    · exact Clean.cons.2 ⟨hc, ih hcs⟩
    · refine Clean.append.2 ⟨?_, Clean.cons.2 ⟨hc, ih hcs⟩⟩
      split
      · exact clean_spaces
      · exact Clean.nil

/-- Indentation stands in front of a line only. -/
theorem getLast?_indentLines : (indentLines n atStart cs).getLast? = cs.getLast? := by
  induction cs generalizing atStart with
  | nil => rfl
  | cons c cs ih =>
    rw [indentLines]
    split
    · rw [List.getLast?_cons, List.getLast?_cons, ih]
    · rw [List.getLast?_append_of_ne_nil _ (List.cons_ne_nil _ _), List.getLast?_cons,
        List.getLast?_cons, ih]

/-! ## Neighbours -/

theorem anyPair_eq_false_iff : anyPair related cs = false ↔ cs.IsChain (related · · = false) := by
  induction cs with
  | nil => simp [anyPair]
  | cons a cs ih =>
    cases cs with
    | nil => simp [anyPair]
    | cons b cs => rw [anyPair, Bool.or_eq_false_iff, ih, List.isChain_cons_cons]

theorem anyPair_of_append (as : List Char) (h : anyPair related (as ++ bs) = false) :
    anyPair related as = false ∧ anyPair related bs = false := by
  rw [anyPair_eq_false_iff, List.isChain_append] at h
  exact ⟨anyPair_eq_false_iff.2 h.1, anyPair_eq_false_iff.2 h.2.1⟩

/-- Without spaces next to line breaks a gap is made up of spaces or of line breaks. -/
theorem spaces_or_breaks (hclean : Clean gap) (hwhite : ∀ c ∈ gap, isWhite c = true)
    (hbefore : hasSpaceBeforeBreak gap = false) (hafter : hasSpaceAfterBreak gap = false) :
    (∀ c ∈ gap, c = ' ') ∨ ∀ c ∈ gap, isBreak c = true := by
  induction gap with
  | nil => exact .inl fun _ h => nomatch h
  | cons c gap ih =>
    obtain ⟨hc, hgap⟩ := List.forall_mem_cons.1 hwhite
    obtain ⟨hspecial, hclean⟩ := Clean.cons.1 hclean
    have hrest := ih hclean hgap (anyPair_of_append [c] hbefore).2
      (anyPair_of_append [c] hafter).2
    cases gap with
    | nil => simpa using eq_space_or_isBreak hspecial hc
    | cons d gap =>
      have hpair : (c = ' ' → isBreak d = false) ∧ (isBreak c = true → d ≠ ' ') := by
        simp only [hasSpaceBeforeBreak, hasSpaceAfterBreak, anyPair, Bool.or_eq_false_iff]
          at hbefore hafter
        simpa using And.intro hbefore.1 hafter.1
      rcases hrest with hspaces | hbreaks
      · have hd := hspaces d List.mem_cons_self
        have hc : c = ' ' := (eq_space_or_isBreak hspecial hc).resolve_right fun h => hpair.2 h hd
        exact .inl (List.forall_mem_cons.2 ⟨hc, hspaces⟩)
      · have hd := hbreaks d List.mem_cons_self
        have hc : isBreak c = true := by
          refine (eq_space_or_isBreak hspecial hc).resolve_left fun h => ?_
          rw [hpair.1 h] at hd
          cases hd
        exact .inr (List.forall_mem_cons.2 ⟨hc, hbreaks⟩)

end ApiModels.Yaml
