import ApiModels.Proofs.Yaml.Quoted

/-!
# Reading single-quoted scalars back

In single quotation marks the mark itself is doubled, and a line break is followed by the
indentation of the next line, which does not count (`gapText_padding`). So a text is read back if no
space stands next to a line break and no line break is a line feed (`quoted?_single`).
-/

namespace ApiModels.Yaml

variable {p : Position} {c : Char} {cs as bs word gap rest tail : List Char} {n fuel : Nat}

/-! ## The text between the marks -/

/-- A character of a single-quoted scalar. -/
def doubled (c : Char) : List Char := if c = '\'' then [c, c] else [c]

/-- The indentation behind a line break at the end of a text. -/
def padding (n : Nat) (cs : List Char) : List Char :=
  if cs.getLast?.any isBreak then spaces n else []

/-- The text between single quotation marks. -/
def singleText (n : Nat) (cs : List Char) : List Char :=
  indentLines n false (cs.flatMap doubled) ++ padding n cs

theorem mem_flatMap_doubled {d : Char} : d ∈ cs.flatMap doubled ↔ d ∈ cs := by
  have hmem : ∀ c, d ∈ doubled c ↔ d = c := by
    intro c
    rw [doubled]
    split <;> simp
  simp [List.mem_flatMap, hmem]

theorem flatMap_doubled_ne_nil (h : cs ≠ []) : cs.flatMap doubled ≠ [] := by
  obtain ⟨c, cs, rfl⟩ := List.exists_cons_of_ne_nil h
  have : c ∈ (c :: cs).flatMap doubled := mem_flatMap_doubled.2 List.mem_cons_self
  exact List.ne_nil_of_mem this

theorem begins_flatMap_doubled {kind : Char → Prop} (h : Begins kind cs) :
    Begins kind (cs.flatMap doubled) := by
  cases cs with
  | nil => exact h
  | cons c cs =>
    rw [List.flatMap_cons, doubled]
    split <;> exact .of_cons (h c rfl)

theorem eq_space_of_mem_padding (h : c ∈ padding n cs) : c = ' ' := by
  rw [padding] at h
  split at h
  · exact eq_space_of_mem_spaces h
  · cases h

theorem padding_oneLine (h : OneLine cs) : padding n cs = [] := by
  rw [padding]
  cases hlast : cs.getLast? with
  | none => rfl
  | some c => exact if_neg (by simp [h c (List.mem_of_getLast? hlast)])

theorem padding_breaks (h : ∀ c ∈ gap, isBreak c = true) (hne : gap ≠ []) :
    padding n gap = spaces n := by
  rw [padding, List.getLast?_eq_some_getLast hne]
  exact if_pos (h _ (List.getLast_mem hne))

theorem padding_append (hne : bs ≠ []) : padding n (as ++ bs) = padding n bs := by
  rw [padding, List.getLast?_append_of_ne_nil as hne, padding]

theorem singleText_oneLine (h : OneLine word) : singleText n word = word.flatMap doubled := by
  have hdoubled : OneLine (word.flatMap doubled) := fun c hc => h c (mem_flatMap_doubled.1 hc)
  rw [singleText, indentLines_oneLine hdoubled, padding_oneLine h, List.append_nil]

theorem singleText_append (hword : OneLine word)
    (hgap : (∀ c ∈ gap, c = ' ') ∨ ∀ c ∈ gap, isBreak c = true) (hne : gap ≠ [])
    (hrest : Begins (isWhite · = false) rest) :
    singleText n (word ++ (gap ++ rest)) =
      word.flatMap doubled ++ ((gap ++ padding n gap) ++ singleText n rest) := by
  have hdoubled : OneLine (word.flatMap doubled) := fun c hc => hword c (mem_flatMap_doubled.1 hc)
  have hwritten : gap.flatMap doubled = gap := by
    refine flatMap_eq_self fun c hc => if_neg ?_
    rintro rfl
    rcases hgap with hspaces | hbreaks
    · exact absurd (hspaces _ hc) (by decide)
    · exact absurd (hbreaks _ hc) (by decide)
  rw [singleText, List.flatMap_append, List.flatMap_append, hwritten,
    indentLines_append_oneLine hdoubled]
  rcases hgap with hspaces | hbreaks
  case inl =>
    have hline : OneLine gap := fun c hc => hspaces c hc ▸ rfl
    have hpadding : padding n (word ++ (gap ++ rest)) = padding n rest := by
      cases rest with
      | nil =>
        rw [List.append_nil, padding_oneLine (OneLine.append.2 ⟨hword, hline⟩)]
        exact (padding_oneLine OneLine.nil).symm
      | cons => rw [← List.append_assoc, padding_append (List.cons_ne_nil _ _)]
    rw [indentLines_append_oneLine hline, padding_oneLine hline, hpadding, singleText]
    simp only [List.append_assoc, List.append_nil]
  case inr =>
    rw [indentLines_append_breaks hbreaks hne, padding_breaks hbreaks hne]
    cases rest with
    | nil =>
      rw [List.append_nil, padding_append hne, padding_breaks hbreaks hne,
        singleText_oneLine OneLine.nil]
      simp [indentLines]
    | cons c rest =>
      have hbegins : Begins (isBreak · = false) ((c :: rest).flatMap doubled) :=
        begins_flatMap_doubled fun d hd => (Bool.or_eq_false_iff.1 (hrest d hd)).2
      rw [indentLines_atStart hbegins (flatMap_doubled_ne_nil (List.cons_ne_nil _ _)),
        ← List.append_assoc word, padding_append (List.cons_ne_nil _ _), singleText]
      simp only [List.append_assoc]

/-- The text behind a gap begins with a character that is neither special nor white space. -/
theorem begins_singleText (h : Begins Solid cs) :
    Begins Solid (singleText n cs ++ '\'' :: rest) := by
  cases cs with
  | nil =>
    rw [singleText_oneLine OneLine.nil]
    exact .of_cons ⟨rfl, by decide, rfl⟩
  | cons c cs =>
    have hbegins := begins_flatMap_doubled h
    obtain ⟨d, ds, hds⟩ :=
      List.exists_cons_of_ne_nil (flatMap_doubled_ne_nil (List.cons_ne_nil c cs))
    rw [hds] at hbegins
    have hd : Solid d := hbegins d rfl
    rw [singleText, hds, indentLines, hd.notBreak]
    exact .of_cons hd

theorem column_after_padding (hcolumn : 0 < p.column) (hn : 0 < n) (hne : gap ≠ [])
    (hgap : (∀ c ∈ gap, c = ' ') ∨ ∀ c ∈ gap, isBreak c = true) :
    0 < (p.after (gap ++ padding n gap)).column := by
  rcases hgap with hspaces | hbreaks
  · have hline : OneLine gap := fun c hc => hspaces c hc ▸ rfl
    rw [padding_oneLine hline, List.append_nil]
    exact Position.column_after_pos hline hcolumn
  · rw [padding_breaks hbreaks hne, Position.after_append,
      (Position.after_of_oneLine oneLine_spaces).2, length_spaces]
    exact Nat.add_pos_right _ hn

/-- A gap is read without the indentation behind it. -/
theorem gapText_padding (hclean : Clean gap) (hfeed : '\n' ∉ gap) (hne : gap ≠ [])
    (hgap : (∀ c ∈ gap, c = ' ') ∨ ∀ c ∈ gap, isBreak c = true) :
    gapText (p.glyphs (gap ++ padding n gap)) = gap := by
  rcases hgap with hspaces | hbreaks
  · have hline : OneLine gap := fun c hc => hspaces c hc ▸ rfl
    rw [padding_oneLine hline, List.append_nil, gapText_spaces hspaces]
  · rw [padding_breaks hbreaks hne]
    exact gapText_breaks hclean hbreaks hfeed hne

/-! ## Scalars -/

/-- A character is read from what stands for it. -/
theorem singlePart_doubled (hc : Solid c) :
    singlePart (p.glyphs (doubled c ++ tail)) =
      (c :: (singlePart ((p.after (doubled c)).glyphs tail)).1,
        (singlePart ((p.after (doubled c)).glyphs tail)).2) := by
  by_cases hmark : c = '\''
  · subst hmark
    rw [doubled, if_pos rfl, List.cons_append, List.cons_append, List.nil_append,
      Position.glyphs_cons rfl, Position.glyphs_cons rfl, singlePart]
    simp [show isWhite '\'' = false from rfl]
  · rw [doubled, if_neg hmark, List.cons_append, List.nil_append,
      Position.glyphs_cons hc.notSpecial]
    cases hgs : (p.next c).glyphs tail with
    | nil => simp [hgs, singlePart, hc.isWhite_eq_false, hmark]
    | cons g gs => simp [hgs, singlePart, hc.isWhite_eq_false, hmark]

/-- A word is read up to white space or the closing mark. -/
theorem singlePart_word (hword : ∀ c ∈ word, Solid c)
    (htail : singlePart ((p.after (word.flatMap doubled)).glyphs tail) =
      ([], (p.after (word.flatMap doubled)).glyphs tail)) :
    singlePart (p.glyphs (word.flatMap doubled ++ tail)) =
      (word, (p.after (word.flatMap doubled)).glyphs tail) := by
  induction word generalizing p with
  | nil => exact htail
  | cons c word ih =>
    obtain ⟨hc, hword⟩ := List.forall_mem_cons.1 hword
    rw [List.flatMap_cons, Position.after_append] at htail
    rw [List.flatMap_cons, List.append_assoc, Position.after_append, singlePart_doubled hc,
      ih hword htail]

theorem singlePart_white (hspecial : isSpecial c = false) (hwhite : isWhite c = true) :
    singlePart (p.glyphs (c :: tail)) = ([], p.glyphs (c :: tail)) := by
  rw [Position.glyphs_cons hspecial]
  cases hgs : (p.next c).glyphs tail <;> simp [singlePart, hwhite]

theorem singlePart_mark (htail : Begins (fun c => isSpecial c = false ∧ c ≠ '\'') tail) :
    singlePart (p.glyphs ('\'' :: tail)) = ([], p.glyphs ('\'' :: tail)) := by
  rw [Position.glyphs_cons rfl]
  cases tail with
  | nil => simp [singlePart]
  | cons c tail =>
    obtain ⟨hspecial, hc⟩ := htail c rfl
    rw [Position.glyphs_cons hspecial]
    simp [singlePart, hc]

/-- A text that can stand in single quotation marks. -/
structure SingleSafe (cs : List Char) : Prop where
  clean : Clean cs
  noFeed : '\n' ∉ cs
  noSpaceBefore : hasSpaceBeforeBreak cs = false
  noSpaceAfter : hasSpaceAfterBreak cs = false

theorem SingleSafe.of_append (h : SingleSafe (as ++ bs)) : SingleSafe as ∧ SingleSafe bs := by
  have hclean := Clean.append.1 h.clean
  have hfeed := not_or.1 (mt List.mem_append.2 h.noFeed)
  have hbefore := anyPair_of_append _ h.noSpaceBefore
  have hafter := anyPair_of_append _ h.noSpaceAfter
  exact ⟨⟨hclean.1, hfeed.1, hbefore.1, hafter.1⟩, hclean.2, hfeed.2, hbefore.2, hafter.2⟩

theorem quotedParts?_single (h : Words isWhite cs) (hsafe : SingleSafe cs) (hn : 0 < n)
    (hcolumn : 0 < p.column) (hrest : Begins (fun c => isSpecial c = false ∧ c ≠ '\'') rest)
    (hfuel : (singleText n cs).length < fuel) :
    quotedParts? .singleQuoted fuel (p.glyphs (singleText n cs ++ '\'' :: rest)) =
      some (cs, ((p.after (singleText n cs)).next '\'').glyphs rest) := by
  have hsolid : ∀ {word : List Char}, Clean word → (∀ c ∈ word, isWhite c = false) →
      ∀ c ∈ word, Solid c :=
    fun hclean hword c hc => (isWhite_eq_false_iff (hclean c hc)).1 (hword c hc)
  induction h generalizing p fuel with
  | @last word hlast =>
    obtain ⟨fuel, rfl⟩ := Nat.exists_eq_succ_of_ne_zero (Nat.ne_zero_of_lt hfuel)
    have hword := hsolid hsafe.clean hlast
    rw [singleText_oneLine fun c hc => (hword c hc).notBreak]
    have hpart : Style.part? .singleQuoted (p.glyphs (word.flatMap doubled ++ '\'' :: rest)) =
        some (word, _) := congrArg some (singlePart_word hword (singlePart_mark hrest))
    exact quotedParts?_close hcolumn hpart
  | @more word gap rest' hfirst hne hgap hbegins _ ih =>
    obtain ⟨fuel, rfl⟩ := Nat.exists_eq_succ_of_ne_zero (Nat.ne_zero_of_lt hfuel)
    obtain ⟨hsafeWord, hsafeTail⟩ := hsafe.of_append
    obtain ⟨hsafeGap, hsafeRest⟩ := hsafeTail.of_append
    have hword := hsolid hsafeWord.clean hfirst
    have hline : OneLine word := fun c hc => (hword c hc).notBreak
    have hkind := spaces_or_breaks hsafeGap.clean hgap hsafeGap.noSpaceBefore hsafeGap.noSpaceAfter
    have hafter : Begins Solid (singleText n rest' ++ '\'' :: rest) := by
      refine begins_singleText fun c hc => ?_
      exact (isWhite_eq_false_iff (hsafeRest.clean c (List.mem_of_mem_head? hc))).1 (hbegins c hc)
    have hgap' : ∀ c ∈ gap ++ padding n gap, isSpecial c = false ∧ isWhite c = true := by
      rw [List.forall_mem_append]
      exact ⟨fun c hc => ⟨hsafeGap.clean c hc, hgap c hc⟩,
        fun c hc => eq_space_of_mem_padding hc ▸ ⟨rfl, rfl⟩⟩
    obtain ⟨c, gap, rfl⟩ := List.exists_cons_of_ne_nil hne
    have hcolumn' : 0 < (p.after (word.flatMap doubled)).column :=
      Position.column_after_pos (fun c hc => hline c (mem_flatMap_doubled.1 hc)) hcolumn
    have hfuel' : (singleText n rest').length < fuel := by
      rw [singleText_append hline hkind hne hbegins] at hfuel
      simp only [List.length_append, List.length_cons] at hfuel
      omega
    have hpart : Style.part? .singleQuoted (p.glyphs (word.flatMap doubled ++
        (((c :: gap) ++ padding n (c :: gap)) ++ (singleText n rest' ++ '\'' :: rest)))) =
        some (word, _) :=
      congrArg some (singlePart_word hword (singlePart_white (hgap' c List.mem_cons_self).1
        (hgap' c List.mem_cons_self).2))
    rw [singleText_append hline hkind hne hbegins, List.append_assoc, List.append_assoc,
      quotedParts?_gap hcolumn (List.append_ne_nil_of_left_ne_nil hne _)
        (fun d hd => (hgap' d hd).1) (fun d hd => (hgap' d hd).2) hafter hpart,
      ih hsafeRest (column_after_padding hcolumn' hn hne hkind) hfuel',
      gapText_padding hsafeGap.clean hsafeGap.noFeed hne hkind, Option.map_some,
      ← Position.after_append, ← Position.after_append]
    simp only [List.append_assoc]

theorem clean_singleText (h : Clean cs) : Clean (singleText n cs) := by
  rw [singleText, Clean.append]
  exact ⟨clean_indentLines fun c hc => h c (mem_flatMap_doubled.1 hc),
    fun c hc => eq_space_of_mem_padding hc ▸ rfl⟩

/-- Text in single quotation marks is read back. -/
theorem quoted?_single (hsafe : SingleSafe cs) (hn : 0 < n) (hcolumn : 0 < p.column)
    (hrest : Begins (fun c => isSpecial c = false ∧ c ≠ '\'') rest) :
    quoted? .singleQuoted (p.glyphs (singleText n cs ++ '\'' :: rest)) =
      some (cs, ((p.after (singleText n cs)).next '\'').glyphs rest) := by
  refine quotedParts?_single (words _ cs) hsafe hn hcolumn hrest ?_
  rw [Position.glyphs_append (clean_singleText hsafe.clean), List.length_append,
    Position.length_glyphs (clean_singleText hsafe.clean)]
  omega

end ApiModels.Yaml
