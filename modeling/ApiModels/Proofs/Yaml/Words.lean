import ApiModels.Proofs.Yaml.Position
import ApiModels.Yaml.Node
import ApiModels.Yaml.Scalar
import Mathlib.Data.List.TakeDrop
import Mathlib.Data.List.TakeWhile

/-!
# Words and gaps

A text is made up of words and of the white space between them (`words`). A reader of scalars goes
through it in the same way: `spanGap_glyphs` says how far it sees white space, and `gapText_spaces`
and `gapText_breaks` what it takes the white space for.
-/

namespace ApiModels.Yaml

/-- White space in a text. -/
def isWhite (c : Char) : Bool := isBlank c || isBreak c

/-- A character that is neither special nor white space. -/
structure Solid (c : Char) : Prop where
  notSpecial : isSpecial c = false
  notSpace : c ≠ ' '
  notBreak : isBreak c = false

/-- A text that is empty or begins with a character of a kind. -/
def Begins (kind : Char → Prop) (cs : List Char) : Prop := ∀ c ∈ cs.head?, kind c

/-- Words that are divided by gaps. Only the first and the last word can be empty. -/
inductive Words (isGap : Char → Bool) : List Char → Prop where
  | last {word} : (∀ c ∈ word, isGap c = false) → Words isGap word
  | more {word gap rest} : (∀ c ∈ word, isGap c = false) → gap ≠ [] → (∀ c ∈ gap, isGap c = true) →
    Begins (isGap · = false) rest → Words isGap rest → Words isGap (word ++ (gap ++ rest))

variable {p : Position} {c : Char} {cs gap rest breaks : List Char} {n : Nat}

/-! ## Characters -/

theorem isWhite_eq_false_iff (h : isSpecial c = false) : isWhite c = false ↔ Solid c := by
  rw [isWhite, Bool.or_eq_false_iff, ← Bool.not_eq_true, isBlank_iff_of_not_isSpecial h]
  exact ⟨fun ⟨hspace, hbreak⟩ => ⟨h, hspace, hbreak⟩, fun hsolid => ⟨hsolid.2, hsolid.3⟩⟩

theorem Solid.isWhite_eq_false (h : Solid c) : isWhite c = false :=
  (isWhite_eq_false_iff h.notSpecial).2 h

/-- White space is a space or a line break. -/
theorem eq_space_or_isBreak (h : isSpecial c = false) (hwhite : isWhite c = true) :
    c = ' ' ∨ isBreak c = true := by
  rwa [isWhite, Bool.or_eq_true, isBlank_iff_of_not_isSpecial h] at hwhite

theorem Begins.of_cons {kind : Char → Prop} (h : kind c) : Begins kind (c :: cs) := by
  rintro _ ⟨⟩
  exact h

theorem flatMap_eq_self {f : Char → List Char} (h : ∀ c ∈ cs, f c = [c]) : cs.flatMap f = cs := by
  induction cs with
  | nil => rfl
  | cons c cs ih =>
    obtain ⟨hc, hcs⟩ := List.forall_mem_cons.1 h
    rw [List.flatMap_cons, hc, ih hcs, List.singleton_append]

/-! ## The words of a text -/

theorem begins_dropWhile (isGap : Char → Bool) (cs : List Char) :
    Begins (isGap · = false) (cs.dropWhile isGap) := by
  intro c hc
  have := List.head?_dropWhile_not isGap cs
  rw [Option.mem_def.1 hc] at this
  simpa using this

/-- Every text is made up of words. -/
theorem words (isGap : Char → Bool) (cs : List Char) : Words isGap cs := by
  have hword : ∀ c ∈ cs.takeWhile (!isGap ·), isGap c = false := by
    intro c hc
    simpa using List.mem_takeWhile_imp hc
  have hcs := List.takeWhile_append_dropWhile (p := (!isGap ·)) (l := cs)
  cases htail : cs.dropWhile (!isGap ·) with
  | nil =>
    rw [← hcs, htail, List.append_nil]
    exact .last hword
  | cons c tail =>
    have hc : isGap c = true := by
      have := List.head?_dropWhile_not (!isGap ·) cs
      rw [htail] at this
      simpa using this
    have hrest : ((c :: tail).dropWhile isGap).length < cs.length := by
      rw [List.dropWhile_cons_of_pos hc, ← hcs, htail, List.length_append, List.length_cons]
      have := List.length_dropWhile_le isGap tail
      omega
    have hgap : (c :: tail).takeWhile isGap ≠ [] := by
      rw [List.takeWhile_cons_of_pos hc]
      exact List.cons_ne_nil _ _
    rw [← hcs, htail, ← List.takeWhile_append_dropWhile (p := isGap) (l := c :: tail)]
    exact .more hword hgap (fun _ hd => List.mem_takeWhile_imp hd) (begins_dropWhile isGap _)
      (words isGap _)
termination_by cs.length

/-! ## Gaps -/

@[simp] theorem isSpace_glyph : (p.glyph c).isSpace = isWhite c := rfl

theorem atWordEnd_glyphs (h : Begins (isSpecial · = false) cs) :
    atWordEnd (p.glyphs cs) = endsWord cs := by
  cases cs with
  | nil => rfl
  | cons c cs =>
    rw [Position.glyphs_cons (h c rfl), atWordEnd, isSpace_glyph, endsWord, isWhite, isBlank]

theorem atWordEnd_of_white (h : Begins (fun c => isSpecial c = false ∧ isWhite c = true) cs) :
    atWordEnd (p.glyphs cs) = true := by
  cases cs with
  | nil => rfl
  | cons c cs => rw [Position.glyphs_cons (h c rfl).1, atWordEnd, isSpace_glyph, (h c rfl).2]

/-- White space is seen up to the next word. -/
theorem spanGap_glyphs (gap : List Char) (hgap : Clean gap) (hwhite : ∀ c ∈ gap, isWhite c = true)
    (hrest : Begins Solid rest) :
    spanGap (p.glyphs (gap ++ rest)) = (p.glyphs gap, (p.after gap).glyphs rest) := by
  have hspace : ∀ g ∈ p.glyphs gap, g.isSpace = true := by
    intro g hg
    have : g.char ∈ gap := Position.char_mem_of_mem_glyphs hgap hg
    exact hwhite _ this
  rw [spanGap, List.span_eq_takeWhile_dropWhile, Position.glyphs_append hgap,
    List.takeWhile_append_of_pos hspace, List.dropWhile_append_of_pos hspace]
  cases rest with
  | nil => simp
  | cons c rest =>
    have hc : Solid c := hrest c rfl
    have hnot : ¬((p.after gap).glyph c).isSpace = true := by
      rw [isSpace_glyph, hc.isWhite_eq_false]
      exact Bool.false_ne_true
    rw [Position.glyphs_cons hc.notSpecial, List.takeWhile_cons_of_neg hnot,
      List.dropWhile_cons_of_neg hnot, List.append_nil]

theorem breaks_glyphs (h : Clean gap) :
    ((p.glyphs gap).filter (·.isBreak)).map (·.char) = gap.filter isBreak := by
  conv_rhs => rw [← Position.map_char_glyphs (p := p) h, List.filter_map]
  rfl

/-- Spaces stand for themselves. -/
theorem gapText_spaces (hspaces : ∀ c ∈ gap, c = ' ') : gapText (p.glyphs gap) = gap := by
  have hclean : Clean gap := fun c hc => hspaces c hc ▸ rfl
  have hnone : gap.filter isBreak = [] :=
    List.filter_eq_nil_iff.2 fun c hc => hspaces c hc ▸ Bool.false_ne_true
  rw [gapText, breaks_glyphs hclean, hnone]
  exact Position.map_char_glyphs hclean

/-- Line breaks other than line feeds stand for themselves, and the indentation behind them does not
count. -/
theorem gapText_breaks (hclean : Clean breaks) (hbreaks : ∀ c ∈ breaks, isBreak c = true)
    (hfeed : '\n' ∉ breaks) (hne : breaks ≠ []) :
    gapText (p.glyphs (breaks ++ List.replicate n ' ')) = breaks := by
  have hspaces : Clean (List.replicate n ' ') := fun c hc => List.eq_of_mem_replicate hc ▸ rfl
  have hfilter : (breaks ++ List.replicate n ' ').filter isBreak = breaks := by
    rw [List.filter_append, List.filter_eq_self.2 hbreaks,
      List.filter_eq_nil_iff.2 fun c hc => List.eq_of_mem_replicate hc ▸ Bool.false_ne_true,
      List.append_nil]
  rw [gapText, breaks_glyphs (Clean.append.2 ⟨hclean, hspaces⟩), hfilter]
  cases breaks with
  | nil => exact absurd rfl hne
  | cons c cs =>
    have hc : c ≠ '\n' := fun h => hfeed (h ▸ List.mem_cons_self)
    split
    · contradiction
    · rename_i heq
      exact absurd (List.cons.inj heq).1 hc
    · rename_i heq
      exact absurd (List.cons.inj heq).1 hc
    · rfl

end ApiModels.Yaml
