import ApiModels.Proofs.Yaml.Indentation
import Mathlib.Tactic.SplitIfs

/-!
# The parts of quoted scalars

A quoted scalar is read word by word: behind each part comes the closing mark (`quotedParts?_close`)
or white space and further parts (`quotedParts?_gap`).
-/

namespace ApiModels.Yaml

variable {p q : Position} {c : Char} {cs word gap rest : List Char} {fuel : Nat}

/-- The mark that a quoted scalar stands between. -/
def Style.mark (style : Style) : Char := if style = .singleQuoted then '\'' else '"'

/-- The characters of a quoted scalar up to white space or its closing mark. -/
def Style.part? (style : Style) (gs : List Glyph) : Option (List Char × List Glyph) :=
  if style = .singleQuoted then some (singlePart gs) else doublePart? gs

theorem Style.solid_mark (style : Style) : Solid style.mark := by
  rw [mark]
  split <;> exact ⟨rfl, by decide, rfl⟩

theorem Style.mark_ne (style : Style) : style.mark ≠ '\\' := by
  rw [mark]
  split <;> decide

theorem Style.part?_nil (style : Style) : style.part? [] = some ([], []) := by
  rw [part?, doublePart?, singlePart]
  split <;> rfl

/-- A part is followed by the closing mark or by white space and further parts. -/
theorem quotedParts?_succ {style : Style} (hcolumn : 0 < p.column) (hspecial : isSpecial c = false)
    (hslash : c ≠ '\\')
    (hpart : style.part? (p.glyphs cs) = some (word, q.glyphs (c :: rest))) :
    quotedParts? style (fuel + 1) (p.glyphs cs) =
      if c = style.mark then some (word, (q.next c).glyphs rest)
      else (quotedParts? style fuel (spanGap (q.glyphs (c :: rest))).2).map fun (more, after) =>
        (word ++ gapText (spanGap (q.glyphs (c :: rest))).1 ++ more, after) := by
  have hne : (p.glyphs cs).isEmpty = false := by
    cases hgs : p.glyphs cs with
    | cons => rfl
    | nil =>
      rw [hgs, Style.part?_nil, Position.glyphs_cons hspecial] at hpart
      simp at hpart
  have hescaped : afterEscapedBreak? (q.glyphs (c :: rest)) = none := by
    rw [Position.glyphs_cons hspecial, afterEscapedBreak?.eq_def]
    split
    · rename_i heq
      obtain ⟨rfl, -⟩ := List.cons.inj heq
      simp [hslash]
    · rfl
  have hclose : atOneOf [style.mark] (q.glyphs (c :: rest)) = decide (c = style.mark) := by
    simp [Position.glyphs_cons hspecial, atOneOf]
  rw [quotedParts?, Position.atDocumentMark_eq_false hcolumn, hne, Bool.or_false,
    if_neg Bool.false_ne_true]
  by_cases hstyle : style = .singleQuoted
  all_goals
    simp only [Style.part?, Style.mark, hstyle, if_true, if_false] at hpart hclose ⊢
    simp only [hpart, hclose, hescaped, Option.bind_eq_bind, Option.bind_some, decide_eq_true_eq]
    split_ifs
    · simp [Position.glyphs_cons hspecial]
    · rw [Option.map_eq_bind]
      rfl

/-- The closing mark ends a quoted scalar. -/
theorem quotedParts?_close {style : Style} (hcolumn : 0 < p.column)
    (hpart : style.part? (p.glyphs cs) = some (word, q.glyphs (style.mark :: rest))) :
    quotedParts? style (fuel + 1) (p.glyphs cs) = some (word, (q.next style.mark).glyphs rest) := by
  rw [quotedParts?_succ hcolumn style.solid_mark.notSpecial style.mark_ne hpart, if_pos rfl]

/-- White space is followed by further parts. -/
theorem quotedParts?_gap {style : Style} (hcolumn : 0 < p.column) (hne : gap ≠ [])
    (hgap : Clean gap) (hwhite : ∀ c ∈ gap, isWhite c = true) (hrest : Begins Solid rest)
    (hpart : style.part? (p.glyphs cs) = some (word, q.glyphs (gap ++ rest))) :
    quotedParts? style (fuel + 1) (p.glyphs cs) =
      (quotedParts? style fuel ((q.after gap).glyphs rest)).map fun (more, after) =>
        (word ++ gapText (q.glyphs gap) ++ more, after) := by
  have hspan := spanGap_glyphs (p := q) gap hgap hwhite hrest
  cases gap with
  | nil => exact absurd rfl hne
  | cons c gap =>
    have hc : isWhite c = true := hwhite c List.mem_cons_self
    have hmark : c ≠ style.mark := by
      rintro rfl
      rw [style.solid_mark.isWhite_eq_false] at hc
      cases hc
    have hslash : c ≠ '\\' := by
      rintro rfl
      cases hc
    rw [List.cons_append] at hpart hspan
    rw [quotedParts?_succ hcolumn (Clean.cons.1 hgap).1 hslash hpart, if_neg hmark, hspan]

end ApiModels.Yaml
