import ApiModels.Yaml.Glyph

/-!
# Positions in a text

What a reader of YAML sees of a text depends on the position at which the text begins: on its
column, its line and its offset. A text without special characters is seen character by character
(`Position.glyphs_append`), and one without line breaks stays on its line.
-/

namespace ApiModels.Yaml

/-- Where a character of a text stands. -/
structure Position where
  offset : Nat
  line : Nat
  column : Nat

/-- A text that needs no double quotation marks for any of its characters. -/
def Clean (cs : List Char) : Prop := ∀ c ∈ cs, isSpecial c = false

/-- A text on one line. -/
def OneLine (cs : List Char) : Prop := ∀ c ∈ cs, isBreak c = false

namespace Position

/-- The position behind the character `c`. -/
def next (p : Position) (c : Char) : Position :=
  if isBreak c then ⟨p.offset + c.utf8Size, p.line + 1, 0⟩
  else ⟨p.offset + c.utf8Size, p.line, p.column + 1⟩

/-- The position behind a text. -/
def after (p : Position) (cs : List Char) : Position := cs.foldl next p

/-- A character at a position. -/
abbrev glyph (p : Position) (c : Char) : Glyph := ⟨c, p.offset, p.line, p.column⟩

/-- The glyphs of a text that begins at a position. -/
def glyphs (p : Position) (cs : List Char) : List Glyph := glyphsFrom p.offset p.line p.column cs

end Position

variable {p q : Position} {c : Char} {cs as bs : List Char}

/-! ## Characters -/

theorem isSpecial_eq_false_iff : isSpecial c = false ↔
    (0x20 ≤ c.toNat ∨ c.toNat = 0x0A) ∧ ¬(0x7F ≤ c.toNat ∧ c.toNat ≤ 0x9F) ∧ c.toNat ≠ 0xFEFF ∧
      c.toNat ≠ 0xFFFE ∧ c.toNat ≠ 0xFFFF := by
  simp only [isSpecial, Bool.or_eq_false_iff, Bool.and_eq_false_iff, decide_eq_false_iff_not]
  omega

/-- A special character is none of the characters that are told apart by name. -/
theorem ne_of_not_isSpecial {d : Char} (h : isSpecial c = false) (hd : isSpecial d = true) :
    c ≠ d := by
  rintro rfl
  rw [h] at hd
  cases hd

theorem isReadable_of_not_isSpecial (h : isSpecial c = false) : isReadable c = true := by
  have := isSpecial_eq_false_iff.1 h
  simp only [isReadable, Bool.or_eq_true, Bool.and_eq_true, decide_eq_true_eq]
  omega

theorem isBlank_iff_of_not_isSpecial (h : isSpecial c = false) : isBlank c = true ↔ c = ' ' := by
  simp [isBlank, ne_of_not_isSpecial h (show isSpecial '\t' = true from rfl)]

theorem normalBreak_of_not_isSpecial (h : isSpecial c = false) : normalBreak c = c := by
  have hreturn := ne_of_not_isSpecial h (show isSpecial '\r' = true from rfl)
  have hnext : c.toNat ≠ 0x85 := by
    have := isSpecial_eq_false_iff.1 h
    omega
  simp [normalBreak, hreturn, hnext]

namespace Clean

@[simp] theorem nil : Clean [] := fun _ h => nomatch h

@[simp] theorem cons : Clean (c :: cs) ↔ isSpecial c = false ∧ Clean cs := List.forall_mem_cons

@[simp] theorem append : Clean (as ++ bs) ↔ Clean as ∧ Clean bs := List.forall_mem_append

end Clean

namespace OneLine

@[simp] theorem nil : OneLine [] := fun _ h => nomatch h

@[simp] theorem cons : OneLine (c :: cs) ↔ isBreak c = false ∧ OneLine cs := List.forall_mem_cons

@[simp] theorem append : OneLine (as ++ bs) ↔ OneLine as ∧ OneLine bs := List.forall_mem_append

end OneLine

/-! ## Positions -/

namespace Position

@[simp] theorem after_nil : p.after [] = p := rfl

@[simp] theorem after_cons : p.after (c :: cs) = (p.next c).after cs := rfl

theorem after_append : p.after (as ++ bs) = (p.after as).after bs := List.foldl_append

theorem next_of_break (h : isBreak c = true) :
    (p.next c).line = p.line + 1 ∧ (p.next c).column = 0 := by
  rw [next, if_pos h]
  exact ⟨rfl, rfl⟩

theorem next_of_not_break (h : isBreak c = false) :
    (p.next c).line = p.line ∧ (p.next c).column = p.column + 1 := by
  rw [next, if_neg (by simp [h])]
  exact ⟨rfl, rfl⟩

theorem offset_next : (p.next c).offset = p.offset + c.utf8Size := by
  rw [next]
  split <;> rfl

theorem line_le_after (p : Position) (cs : List Char) : p.line ≤ (p.after cs).line := by
  induction cs generalizing p with
  | nil => exact Nat.le_refl _
  | cons c cs ih =>
    refine Nat.le_trans ?_ (ih (p.next c))
    rw [next]
    split
    · exact Nat.le_succ _
    · exact Nat.le_refl _

theorem after_of_oneLine (h : OneLine cs) :
    (p.after cs).line = p.line ∧ (p.after cs).column = p.column + cs.length := by
  induction cs generalizing p with
  | nil => exact ⟨rfl, rfl⟩
  | cons c cs ih =>
    obtain ⟨hc, hcs⟩ := OneLine.cons.1 h
    obtain ⟨hline, hcolumn⟩ := next_of_not_break (p := p) hc
    obtain ⟨ihline, ihcolumn⟩ := ih (p := p.next c) hcs
    rw [after_cons, ihline, ihcolumn, hline, hcolumn, List.length_cons]
    exact ⟨rfl, by omega⟩

theorem column_after_breaks (h : ∀ c ∈ cs, isBreak c = true) (hcolumn : p.column = 0) :
    (p.after cs).column = 0 := by
  induction cs generalizing p with
  | nil => exact hcolumn
  | cons c cs ih =>
    obtain ⟨hc, hcs⟩ := List.forall_mem_cons.1 h
    exact ih hcs (next_of_break hc).2

theorem column_after_pos (h : OneLine cs) (hcolumn : 0 < p.column) : 0 < (p.after cs).column := by
  rw [(after_of_oneLine h).2]
  exact Nat.add_pos_left hcolumn _

/-- The number of bytes of a text. -/
def bytes : List Char → Nat
  | [] => 0
  | c :: cs => c.utf8Size + bytes cs

@[simp] theorem bytes_nil : bytes [] = 0 := rfl

@[simp] theorem bytes_cons : bytes (c :: cs) = c.utf8Size + bytes cs := rfl

@[simp] theorem bytes_append : bytes (as ++ bs) = bytes as + bytes bs := by
  induction as with
  | nil => rw [List.nil_append, bytes_nil, Nat.zero_add]
  | cons c as ih => rw [List.cons_append, bytes_cons, bytes_cons, ih, Nat.add_assoc]

theorem bytes_flatMap_le {f : Char → List Char} {k : Nat} (h : ∀ c, bytes (f c) ≤ k * c.utf8Size) :
    bytes (cs.flatMap f) ≤ k * bytes cs := by
  induction cs with
  | nil => exact Nat.zero_le _
  | cons c cs ih =>
    rw [List.flatMap_cons, bytes_append, bytes_cons, Nat.mul_add]
    exact Nat.add_le_add (h c) ih

theorem utf8ByteSize_eq_bytes (text : String) : text.utf8ByteSize = bytes text.toList := by
  suffices ∀ cs, (String.ofList cs).utf8ByteSize = bytes cs by
    rw [← this, String.ofList_toList]
  intro cs
  induction cs with
  | nil => rfl
  | cons c cs ih =>
    rw [String.ofList_cons, String.utf8ByteSize_append, String.utf8ByteSize_singleton, ih,
      bytes_cons]

theorem offset_after : (p.after cs).offset = p.offset + bytes cs := by
  induction cs generalizing p with
  | nil => rfl
  | cons c cs ih =>
    rw [after_cons, ih, offset_next, bytes_cons, Nat.add_assoc]

/-! ## Glyphs -/

@[simp] theorem glyph_char : (p.glyph c).char = c := rfl

@[simp] theorem glyph_column : (p.glyph c).column = p.column := rfl

@[simp] theorem isBlank_glyph : (p.glyph c).isBlank = isBlank c := rfl

@[simp] theorem isBreak_glyph : (p.glyph c).isBreak = isBreak c := rfl

@[simp] theorem glyphs_nil : p.glyphs [] = [] := rfl

theorem glyphs_cons (h : isSpecial c = false) :
    p.glyphs (c :: cs) = p.glyph c :: (p.next c).glyphs cs := by
  have hreturn := ne_of_not_isSpecial h (show isSpecial '\r' = true from rfl)
  rw [glyphs, glyphsFrom.eq_3 _ _ _ _ _ (fun _ hc _ => hreturn hc)]
  cases hbreak : isBreak c with
  | true => rw [if_pos rfl, normalBreak_of_not_isSpecial h, next, if_pos hbreak]; rfl
  | false => rw [if_neg Bool.false_ne_true, next, if_neg (by simp [hbreak])]; rfl

theorem glyphs_append (h : Clean as) :
    p.glyphs (as ++ bs) = p.glyphs as ++ (p.after as).glyphs bs := by
  induction as generalizing p with
  | nil => rfl
  | cons a as ih =>
    obtain ⟨ha, has⟩ := Clean.cons.1 h
    rw [List.cons_append, glyphs_cons ha, glyphs_cons ha, ih has, after_cons, List.cons_append]

/-- The first glyph of a text stands at the position of the text. -/
theorem column_of_mem_head?_glyphs {g : Glyph} (hg : g ∈ (p.glyphs cs).head?) :
    g.column = p.column := by
  rw [glyphs] at hg
  unfold glyphsFrom at hg
  split at hg
  · cases hg
  · cases hg
    rfl
  · dsimp only at hg
    split at hg <;> (cases hg; rfl)

/-- The marks of documents stand at the beginning of a line only. -/
theorem atTriple_eq_false {mark : Char} (h : 0 < p.column) :
    atTriple mark (p.glyphs cs) = false := by
  cases hgs : p.glyphs cs with
  | nil => rfl
  | cons g gs =>
    have hcolumn : g.column ≠ 0 := by
      have hg : g ∈ (p.glyphs cs).head? := by rw [hgs]; rfl
      rw [column_of_mem_head?_glyphs hg]
      omega
    rw [atTriple.eq_def]
    split
    · rename_i heq
      cases heq
      simp [hcolumn]
    · rfl

theorem atDocumentMark_eq_false (h : 0 < p.column) : atDocumentMark (p.glyphs cs) = false := by
  rw [atDocumentMark, atTriple_eq_false h, atTriple_eq_false h, Bool.or_false]

/-- The characters of a text are seen as they are. -/
theorem map_char_glyphs (h : Clean cs) : (p.glyphs cs).map (·.char) = cs := by
  induction cs generalizing p with
  | nil => rfl
  | cons c cs ih =>
    obtain ⟨hc, hcs⟩ := Clean.cons.1 h
    rw [glyphs_cons hc, List.map_cons, ih hcs, glyph]

theorem length_glyphs (h : Clean cs) : (p.glyphs cs).length = cs.length := by
  rw [← List.length_map, map_char_glyphs h]

/-- The number of glyphs of a text does not depend on where the text begins. -/
theorem length_glyphs_eq (p q : Position) (cs : List Char) :
    (p.glyphs cs).length = (q.glyphs cs).length := by
  suffices ∀ offset line column offset' line' column', (glyphsFrom offset line column cs).length =
      (glyphsFrom offset' line' column' cs).length from this ..
  intro offset line column offset' line' column'
  fun_induction glyphsFrom offset line column cs generalizing offset' line' column' with
  | case1 => rfl
  | case2 offset line column cs ih => rw [glyphsFrom, List.length_cons, List.length_cons, ih]
  | case3 offset line column c cs hpair next hbreak ih =>
    rw [glyphsFrom.eq_3 _ _ _ _ _ hpair, if_pos hbreak, List.length_cons, List.length_cons, ih]
  | case4 offset line column c cs hpair next hbreak ih =>
    rw [glyphsFrom.eq_3 _ _ _ _ _ hpair, if_neg hbreak, List.length_cons, List.length_cons, ih]

theorem length_glyphs_append (p q : Position) (h : Clean as) (bs : List Char) :
    (p.glyphs (as ++ bs)).length = as.length + (q.glyphs bs).length := by
  rw [glyphs_append h, List.length_append, length_glyphs h, length_glyphs_eq _ q]

theorem length_glyphs_lt_append (h : Clean as) (hne : as ≠ []) (bs : List Char) :
    (q.glyphs bs).length < (p.glyphs (as ++ bs)).length := by
  have := List.length_pos_iff.2 hne
  rw [length_glyphs_append p q h]
  omega

theorem char_mem_of_mem_glyphs {g : Glyph} (h : Clean cs) (hg : g ∈ p.glyphs cs) : g.char ∈ cs := by
  have := List.mem_map_of_mem (f := (·.char)) hg
  rwa [map_char_glyphs h] at this

end Position

end ApiModels.Yaml
