import ApiModels.Proofs.Yaml.Chomping

/-!
# Reading block scalars back

A literal scalar is read line by line (`readsLines_words`). The line breaks in front of its first
line with content are read on their own, and how far that line is indented is known from the header
or seen (`blockBreaks?_firstLine`). So the text is read back whatever blanks and line breaks it
begins or ends with (`block?_literal`).
-/

namespace ApiModels.Yaml

variable {p q : Position} {c : Char} {cs as bs word more rest : List Char}
  {gs next after : List Glyph} {indent : Option Nat} {m n j fuel : Nat}

/-! ## The front of a line -/

theorem blockBreaks?_breaks (indent : Option Nat) (rest : List Char) (hclean : Clean bs)
    (hbreaks : ∀ c ∈ bs, isBreak c = true) :
    blockBreaks? indent (q.glyphs (bs ++ rest)) =
      (blockBreaks? indent ((q.after bs).glyphs rest)).map fun (breaks, deepest, after) =>
        (bs ++ breaks, deepest, after) := by
  induction bs generalizing q with
  | nil => simp
  | cons c bs ih =>
    obtain ⟨hc, hclean⟩ := Clean.cons.1 hclean
    obtain ⟨hbreak, hbreaks⟩ := List.forall_mem_cons.1 hbreaks
    have hspace : c ≠ ' ' := by
      rintro rfl
      cases hbreak
    have htab : c ≠ '\t' := ne_of_not_isSpecial hc rfl
    rw [List.cons_append, Position.glyphs_cons hc, blockBreaks?, ih hclean hbreaks]
    simp [hspace, htab, hbreak, Function.comp_def]

/-- Spaces in front of a line are passed over up to the indentation. -/
theorem blockBreaks?_spaces (indent : Option Nat) (rest : List Char)
    (hindent : ∀ i ∈ indent, q.column + j ≤ i)
    (hstop : blockBreaks? indent ((q.after (spaces j)).glyphs rest) =
      some ([], 0, (q.after (spaces j)).glyphs rest)) :
    blockBreaks? indent (q.glyphs (spaces j ++ rest)) =
      some ([], if j = 0 then 0 else q.column + j, (q.after (spaces j)).glyphs rest) := by
  induction j generalizing q with
  | zero => exact hstop
  | succ j ih =>
    have hcolumn : (q.next ' ').column = q.column + 1 := (Position.next_of_not_break rfl).2
    have hall : indent.all ((q.glyph ' ').column < ·) = true := by
      cases indent with
      | none => rfl
      | some i =>
        have := hindent i rfl
        simp only [Option.all_some, decide_eq_true_eq]
        omega
    have hspaces : spaces (j + 1) = ' ' :: spaces j := List.replicate_succ
    rw [hspaces] at hstop ⊢
    rw [Position.after_cons] at hstop
    have hrest := ih (fun i hi => by have := hindent i hi; omega) hstop
    rw [List.cons_append, Position.glyphs_cons rfl, blockBreaks?, hrest, hcolumn]
    simp only [hall, decide_true, Bool.and_self, if_true, Option.map_some, Position.after_cons,
      if_neg (Nat.succ_ne_zero j)]
    congr 3
    split <;> omega

/-- A character that is neither special nor white space begins the content of a line. -/
theorem blockBreaks?_solid (hc : Solid c) :
    blockBreaks? indent (q.glyphs (c :: rest)) = some ([], 0, q.glyphs (c :: rest)) := by
  have htab : c ≠ '\t' := ne_of_not_isSpecial hc.notSpecial rfl
  rw [Position.glyphs_cons hc.notSpecial, blockBreaks?]
  simp [hc.notSpace, hc.notBreak, htab]

/-- Behind the indentation a line begins with anything but a line break. -/
theorem blockBreaks?_content (hspecial : isSpecial c = false) (hbreak : isBreak c = false)
    (hcolumn : n ≤ q.column) :
    blockBreaks? (some n) (q.glyphs (c :: rest)) = some ([], 0, q.glyphs (c :: rest)) := by
  have htab : c ≠ '\t' := ne_of_not_isSpecial hspecial rfl
  have hall : ¬q.column < n := Nat.not_lt.2 hcolumn
  rw [Position.glyphs_cons hspecial, blockBreaks?]
  simp [hbreak, htab, hall]

/-- The line breaks and the indentation in front of a line are passed over. -/
theorem blockBreaks?_line (cs rest : List Char) (hclean : Clean bs)
    (hbreaks : ∀ c ∈ bs, isBreak c = true)
    (hspecial : isSpecial c = false) (hbreak : isBreak c = false) (hcolumn : q.column = 0) :
    blockBreaks? (some n) (q.glyphs (bs ++ (spaces n ++ (indentLines n false (c :: cs) ++ rest)))) =
      some (bs, if n = 0 then 0 else n,
        ((q.after bs).after (spaces n)).glyphs (indentLines n false (c :: cs) ++ rest)) := by
  have hcolumn' := Position.column_after_breaks hbreaks hcolumn
  have hstart : ((q.after bs).after (spaces n)).column = n := by
    rw [(Position.after_of_oneLine oneLine_spaces).2, hcolumn', length_spaces, Nat.zero_add]
  have hcontent : indentLines n false (c :: cs) = c :: indentLines n false cs := by
    rw [indentLines, hbreak]
    rfl
  have hindent : ∀ i ∈ some n, (q.after bs).column + n ≤ i := by
    rintro i ⟨⟩
    omega
  rw [blockBreaks?_breaks _ _ hclean hbreaks, hcontent, List.cons_append,
    blockBreaks?_spaces _ _ hindent
      (blockBreaks?_content hspecial hbreak (Nat.le_of_eq hstart.symm))]
  simp [hcolumn']

/-- The indentation of the line that follows a scalar is passed over. -/
theorem blockBreaks?_follows (h : Follows n rest) (hcolumn : q.column = 0) :
    ∃ deepest, blockBreaks? (some n) (q.glyphs rest) =
      some ([], deepest, dropSpaces (q.glyphs rest)) := by
  cases h with
  | nothing => exact ⟨0, rfl⟩
  | @line j c cs hj hc =>
    rw [dropSpaces_glyphs (.of_cons hc)]
    refine ⟨_, blockBreaks?_spaces _ _ ?_ (blockBreaks?_solid hc)⟩
    rintro i ⟨⟩
    omega

/-! ## Lines -/

theorem LineGap.text_literal (gap : LineGap) (beforeBlank : Bool) :
    gap.text true beforeBlank = gap.first ++ gap.more := rfl

/-- The line that follows a block scalar is none of its lines. -/
theorem blockLines?_follows {gap : LineGap} (h : Follows n rest) (hcolumn : q.column = 0) :
    blockLines? true n (fuel + 1) gap (dropSpaces (q.glyphs rest)) =
      some ([], gap, dropSpaces (q.glyphs rest)) := by
  cases h with
  | nothing => rfl
  | @line j c cs hj hc =>
    have hne : ((q.after (spaces j)).glyph c).column ≠ n := by
      rw [Position.glyph_column, (Position.after_of_oneLine oneLine_spaces).2, hcolumn,
        length_spaces]
      omega
    rw [dropSpaces_glyphs (.of_cons hc), Position.glyphs_cons hc.notSpecial, blockLines?]
    exact if_neg hne

/-- A line is followed by the lines behind its line break. -/
theorem blockLines?_line (gap : LineGap) {last : LineGap} {text : List Char} {deepest : Nat}
    (hclean : Clean word) (hline : OneLine word) (hne : word ≠ [])
    (hspecial : isSpecial c = false) (hbreak : isBreak c = true) (hcolumn : q.column = n)
    (hmore : blockBreaks? (some n) (((q.after word).next c).glyphs rest) =
      some (more, deepest, after))
    (hlines : blockLines? true n fuel ⟨[c], more, word.head?.any isBlank⟩ after =
      some (text, last, next)) :
    blockLines? true n (fuel + 1) gap (q.glyphs (word ++ c :: rest)) =
      some (gap.first ++ gap.more ++ (word ++ text), last, next) := by
  have hspan : (q.glyphs (word ++ c :: rest)).span (!·.isBreak) =
      (q.glyphs word, (q.after word).glyphs (c :: rest)) := by
    have hinside : ∀ g ∈ q.glyphs word, (!g.isBreak) = true := by
      intro g hg
      have := hline _ (Position.char_mem_of_mem_glyphs hclean hg)
      rw [Glyph.isBreak, this]
      rfl
    rw [List.span_eq_takeWhile_dropWhile, Position.glyphs_append hclean,
      List.takeWhile_append_of_pos hinside, List.dropWhile_append_of_pos hinside,
      Position.glyphs_cons hspecial]
    simp [hbreak]
  obtain ⟨d, word, rfl⟩ := List.exists_cons_of_ne_nil hne
  have hd := (Clean.cons.1 hclean).1
  rw [List.cons_append, Position.glyphs_cons hd] at hspan ⊢
  rw [blockLines?, if_pos hcolumn, hspan]
  simp only [Position.glyphs_cons hspecial, List.take_succ_cons, List.take_zero, List.map_cons,
    List.map_nil, List.drop_one, List.tail_cons, hmore, Option.bind_eq_bind, Option.bind_some,
    Position.map_char_glyphs hclean, LineGap.text_literal]
  rw [show blockLines? true n fuel ⟨[c], more, (q.glyph d).isBlank⟩ after = _ from hlines]
  simp

/-- Behind the line breaks at the end of a text the next line is none of its lines. -/
theorem blockLines?_lastLine (fuel : Nat) (gap : LineGap) (hclean : Clean (word ++ c :: more))
    (hline : OneLine word) (hne : word ≠ []) (hbreaks : ∀ d ∈ c :: more, isBreak d = true)
    (hcolumn : q.column = n) (hrest : Follows n rest) :
    blockLines? true n (fuel + 2) gap (q.glyphs (word ++ c :: (more ++ rest))) =
      some (gap.first ++ gap.more ++ word, ⟨[c], more, word.head?.any isBlank⟩,
        dropSpaces ((((q.after word).next c).after more).glyphs rest)) := by
  obtain ⟨hcleanWord, hcleanBreaks⟩ := Clean.append.1 hclean
  obtain ⟨hspecial, hcleanMore⟩ := Clean.cons.1 hcleanBreaks
  obtain ⟨hc, hmore⟩ := List.forall_mem_cons.1 hbreaks
  have hcolumn' : (((q.after word).next c).after more).column = 0 :=
    Position.column_after_breaks hmore (Position.next_of_break hc).2
  obtain ⟨deepest, hfollows⟩ := blockBreaks?_follows hrest hcolumn'
  have hread := blockBreaks?_breaks (q := (q.after word).next c) (some n) rest hcleanMore hmore
  simp only [hfollows, Option.map_some, List.append_nil] at hread
  rw [blockLines?_line gap hcleanWord hline hne hspecial hc hcolumn hread
    (blockLines?_follows hrest hcolumn'), List.append_nil]

/-- Whether the lines of `cs` are read up to the line that follows them: their content, and the line
breaks at their end of which chomping leaves those of `cs`. -/
def ReadsLines (n fuel : Nat) (gap : LineGap) (q : Position) (cs rest : List Char) : Prop :=
  ∃ text last,
    blockLines? true n fuel gap (q.glyphs (indentLines n false cs ++ lineEnd cs ++ rest)) =
      some (gap.first ++ gap.more ++ text, last,
        dropSpaces ((q.after (indentLines n false cs ++ lineEnd cs)).glyphs rest)) ∧
    text ++ (chompingOf cs).ending last = cs

theorem readsLines_oneLine (fuel : Nat) (gap : LineGap) (hclean : Clean word) (hline : OneLine word)
    (hne : word ≠ []) (hcolumn : q.column = n) (hrest : Follows n rest) :
    ReadsLines n (fuel + 2) gap q word rest := by
  have hcleanLine : Clean (word ++ ['\n']) :=
    Clean.append.2 ⟨hclean, Clean.cons.2 ⟨rfl, Clean.nil⟩⟩
  have hread := blockLines?_lastLine fuel gap hcleanLine hline hne
    (List.forall_mem_singleton.2 rfl) hcolumn hrest
  refine ⟨word, ⟨['\n'], [], word.head?.any isBlank⟩, ?_, ?_⟩
  · rw [indentLines_oneLine hline, lineEnd_oneLine hline, List.append_assoc,
      Position.after_append]
    exact hread
  · rw [chompingOf_oneLine hline]
    exact List.append_nil _

theorem readsLines_breaks (fuel : Nat) (gap : LineGap) (hclean : Clean (word ++ c :: more))
    (hline : OneLine word) (hne : word ≠ []) (hbreaks : ∀ d ∈ c :: more, isBreak d = true)
    (hcolumn : q.column = n) (hrest : Follows n rest) :
    ReadsLines n (fuel + 2) gap q (word ++ c :: more) rest := by
  have hgapne : c :: more ≠ [] := List.cons_ne_nil _ _
  have hread := blockLines?_lastLine fuel gap hclean hline hne hbreaks hcolumn hrest
  have hlines : indentLines n false (word ++ c :: more) = word ++ c :: more := by
    have hgap : indentLines n false (c :: more ++ []) = c :: more ++ indentLines n true [] :=
      indentLines_append_breaks hbreaks hgapne
    rw [List.append_nil] at hgap
    rw [indentLines_append_oneLine hline, hgap, indentLines, List.append_nil]
  refine ⟨word, ⟨[c], more, word.head?.any isBlank⟩, ?_, ?_⟩
  · rw [hlines, lineEnd_append hgapne, lineEnd_breaks hbreaks hgapne]
    simpa [Position.after_append] using hread
  · rw [ending_chompingOf hline hne hbreaks]

/-- A line, and the lines that follow it behind its line breaks and their indentation. -/
theorem ReadsLines.line {d : Char} (gap : LineGap)
    (h : ReadsLines n fuel ⟨[c], more, word.head?.any isBlank⟩
      ((((q.after word).next c).after more).after (spaces n)) (d :: cs) rest)
    (hclean : Clean (word ++ (c :: more ++ d :: cs))) (hline : OneLine word) (hne : word ≠ [])
    (hbreaks : ∀ d ∈ c :: more, isBreak d = true) (hd : isBreak d = false)
    (hcolumn : q.column = n) :
    ReadsLines n (fuel + 1) gap q (word ++ (c :: more ++ d :: cs)) rest := by
  obtain ⟨text, last, hlines, hending⟩ := h
  obtain ⟨hc, hmore⟩ := List.forall_mem_cons.1 hbreaks
  obtain ⟨hcleanWord, hcleanTail⟩ := Clean.append.1 hclean
  obtain ⟨hcleanGap, hcleanRest⟩ := Clean.append.1 hcleanTail
  obtain ⟨hspecial, hcleanMore⟩ := Clean.cons.1 hcleanGap
  have hbegins : Begins (isBreak · = false) (d :: cs) := by
    rintro _ ⟨⟩
    exact hd
  have hbreak : ((q.after word).next c).column = 0 := (Position.next_of_break hc).2
  have hfront := blockBreaks?_line (n := n) cs (lineEnd (d :: cs) ++ rest) hcleanMore hmore
    (Clean.cons.1 hcleanRest).1 hd hbreak
  rw [← List.append_assoc (indentLines n false (d :: cs))] at hfront
  have hread := blockLines?_line gap hcleanWord hline hne hspecial hc hcolumn hfront hlines
  have hwritten : indentLines n false (word ++ (c :: more ++ d :: cs)) =
      word ++ (c :: more ++ (spaces n ++ indentLines n false (d :: cs))) := by
    rw [indentLines_append_oneLine hline, indentLines_append_breaks hbreaks (List.cons_ne_nil _ _),
      indentLines_atStart hbegins (List.cons_ne_nil _ _)]
  have hend : lineEnd (word ++ (c :: more ++ d :: cs)) = lineEnd (d :: cs) := by
    rw [← List.append_assoc, lineEnd_append (List.cons_ne_nil _ _)]
  have hchomping : chompingOf (word ++ (c :: more ++ d :: cs)) = chompingOf (d :: cs) := by
    rw [← List.append_assoc, chompingOf_append hbegins (List.cons_ne_nil _ _)]
  refine ⟨word ++ ([c] ++ more ++ text), last, ?_, ?_⟩
  · rw [hwritten, hend]
    simp only [List.append_assoc, List.cons_append, Position.after_append, Position.after_cons]
      at hread ⊢
    rw [hread]
  · rw [hchomping]
    simp [hending]

/-- The lines of a text are read up to the line that follows them. -/
theorem readsLines_words (gap : LineGap) (h : Words isBreak cs) (hclean : Clean cs) (hne : cs ≠ [])
    (hbegins : Begins (isBreak · = false) cs) (hcolumn : q.column = n) (hrest : Follows n rest)
    (hfuel : cs.length < fuel) : ReadsLines n fuel gap q cs rest := by
  induction h generalizing q fuel gap with
  | @last word hword =>
    have hlength := List.length_pos_iff.2 hne
    obtain ⟨fuel, rfl⟩ := Nat.exists_eq_add_of_le' (show 2 ≤ fuel by omega)
    exact readsLines_oneLine fuel gap hclean hword hne hcolumn hrest
  | @more word gap' rest' hword hgapne hgap hbegins' _ ih =>
    obtain ⟨c, more, rfl⟩ := List.exists_cons_of_ne_nil hgapne
    have hwordne : word ≠ [] := by
      rintro rfl
      have hnot : isBreak c = false := hbegins c rfl
      cases hnot.symm.trans (List.forall_mem_cons.1 hgap).1
    have hlength := List.length_pos_iff.2 hwordne
    cases rest' with
    | nil =>
      rw [List.append_nil] at hclean hfuel ⊢
      obtain ⟨fuel, rfl⟩ := Nat.exists_eq_add_of_le' (show 2 ≤ fuel by simp at hfuel; omega)
      exact readsLines_breaks fuel gap hclean hword hwordne hgap hcolumn hrest
    | cons d rest' =>
      obtain ⟨fuel, rfl⟩ := Nat.exists_eq_add_of_le' (Nat.zero_lt_of_lt hfuel)
      have hcleanRest := (Clean.append.1 (Clean.append.1 hclean).2).2
      have hmore := (List.forall_mem_cons.1 hgap).2
      have hbreak := (Position.next_of_break (p := q.after word) (hgap c List.mem_cons_self)).2
      have hstart : ((((q.after word).next c).after more).after (spaces n)).column = n := by
        rw [(Position.after_of_oneLine oneLine_spaces).2, Position.column_after_breaks hmore hbreak,
          length_spaces, Nat.zero_add]
      have hlengths : (d :: rest').length < fuel := by
        simp only [List.length_append, List.length_cons] at hfuel ⊢
        omega
      have hlines := ih ⟨[c], more, word.head?.any isBlank⟩ hcleanRest (List.cons_ne_nil _ _)
        hbegins' hstart hlengths
      exact hlines.line gap hclean hword hwordne hgap (hbegins' d rfl) hcolumn

/-! ## Scalars -/

theorem length_le_indentLines (n : Nat) (atStart : Bool) (cs : List Char) :
    cs.length ≤ (indentLines n atStart cs).length := by
  induction cs generalizing atStart with
  | nil => exact Nat.le_refl _
  | cons c cs ih =>
    rw [indentLines]
    split
    · exact Nat.succ_le_succ (ih true)
    · have := ih false
      simp only [List.length_append, List.length_cons]
      omega

/-- The indentation of a text is known from the header or seen from its first line. -/
theorem blockBreaks?_firstLine (rest : List Char) (hclean : Clean (bs ++ c :: cs))
    (hbreaks : ∀ d ∈ bs, isBreak d = true) (hbreak : isBreak c = false) (hcolumn : q.column = 0) :
    ∃ deepest,
      blockBreaks? ((if needsHint (bs ++ c :: cs) then some 2 else none).map (m + 1 - 1 + ·))
        (q.glyphs (bs ++ (spaces (m + 2) ++ (indentLines (m + 2) false (c :: cs) ++ rest)))) =
      some (bs, deepest, ((q.after bs).after (spaces (m + 2))).glyphs
        (indentLines (m + 2) false (c :: cs) ++ rest)) ∧
      ((if needsHint (bs ++ c :: cs) then some 2 else none).map (m + 1 - 1 + ·)).getD
        (max (max deepest (m + 1)) 1) = m + 2 := by
  obtain ⟨hcleanBreaks, hcleanLine⟩ := Clean.append.1 hclean
  have hspecial := (Clean.cons.1 hcleanLine).1
  cases hhint : needsHint (bs ++ c :: cs) with
  | true =>
    have hread := blockBreaks?_line (n := m + 2) cs rest hcleanBreaks hbreaks hspecial
      hbreak hcolumn
    exact ⟨_, hread, rfl⟩
  | false =>
    obtain rfl : bs = [] := by
      by_contra hne
      obtain ⟨b, bs, rfl⟩ := List.exists_cons_of_ne_nil hne
      simp [needsHint, hbreaks b List.mem_cons_self] at hhint
    have hspace : c ≠ ' ' := by
      rintro rfl
      cases hhint
    have hcontent : indentLines (m + 2) false (c :: cs) = c :: indentLines (m + 2) false cs := by
      rw [indentLines, hbreak]
      rfl
    have hread := blockBreaks?_spaces (q := q) (j := m + 2) none
      (indentLines (m + 2) false (c :: cs) ++ rest) (fun i hi => absurd hi (Option.not_mem_none i))
      (by rw [hcontent]; exact blockBreaks?_solid ⟨hspecial, hspace, hbreak⟩)
    refine ⟨_, hread, ?_⟩
    simp [hcolumn]

theorem block?_of_lines (outer : Nat) {deepest : Nat} {chomping : Chomping} {mark : Option Nat}
    {body lines : List Glyph} {breaks text : List Char} {last : LineGap}
    (hheader : blockHeader? gs = some (chomping, mark, body))
    (hbreaks : blockBreaks? (mark.map (outer - 1 + ·)) body = some (breaks, deepest, lines))
    (hindent : (mark.map (outer - 1 + ·)).getD (max (max deepest outer) 1) = n)
    (hlines : blockLines? true n (lines.length + 1) ⟨[], breaks, false⟩ lines =
      some (text, last, after)) :
    block? true outer gs = some (text ++ chomping.ending last, after) := by
  rw [block?, hheader, Option.bind_eq_bind, Option.bind_some]
  simp only [hbreaks, hindent, Option.bind_eq_bind, Option.bind_some, hlines]
  cases chomping <;> rfl

/-- A text of line breaks only is read back. -/
theorem block?_breaks (hclean : Clean cs) (hne : cs ≠ []) (hbreaks : ∀ c ∈ cs, isBreak c = true)
    (hheader : blockHeader? gs = some (chompingOf cs, if needsHint cs then some 2 else none,
      q.glyphs (indentLines (m + 2) true cs ++ lineEnd cs ++ rest)))
    (hcolumn : q.column = 0) (hrest : Follows (m + 2) rest) :
    block? true (m + 1) gs = some (cs,
      dropSpaces ((q.after (indentLines (m + 2) true cs ++ lineEnd cs)).glyphs rest)) := by
  have hwritten : indentLines (m + 2) true cs ++ lineEnd cs = cs := by
    have hlines : indentLines (m + 2) true (cs ++ []) = cs ++ indentLines (m + 2) true [] :=
      indentLines_append_breaks hbreaks hne
    rw [List.append_nil, indentLines, List.append_nil] at hlines
    rw [hlines, lineEnd_breaks hbreaks hne, List.append_nil]
  have hcolumn' := Position.column_after_breaks hbreaks hcolumn
  obtain ⟨deepest, hfollows⟩ := blockBreaks?_follows hrest hcolumn'
  have hread := blockBreaks?_breaks (q := q) (some (m + 2)) rest hclean hbreaks
  simp only [hfollows, Option.map_some, List.append_nil] at hread
  rw [needsHint_of_break hbreaks hne, chompingOf_breaks hbreaks hne, hwritten] at hheader
  rw [hwritten, block?_of_lines (m + 1) hheader hread rfl (blockLines?_follows hrest hcolumn')]
  rfl

/-- A text with content behind its first line breaks is read back. -/
theorem block?_lines (hclean : Clean (bs ++ c :: cs)) (hbreaks : ∀ d ∈ bs, isBreak d = true)
    (hc : isBreak c = false)
    (hheader : blockHeader? gs = some (chompingOf (bs ++ c :: cs),
      if needsHint (bs ++ c :: cs) then some 2 else none,
      q.glyphs (indentLines (m + 2) true (bs ++ c :: cs) ++ lineEnd (bs ++ c :: cs) ++ rest)))
    (hcolumn : q.column = 0) (hrest : Follows (m + 2) rest) :
    block? true (m + 1) gs = some (bs ++ c :: cs, dropSpaces ((q.after
      (indentLines (m + 2) true (bs ++ c :: cs) ++ lineEnd (bs ++ c :: cs))).glyphs rest)) := by
  have hbegins : Begins (isBreak · = false) (c :: cs) := .of_cons hc
  obtain ⟨-, hcleanLines⟩ := Clean.append.1 hclean
  have hwritten : indentLines (m + 2) true (bs ++ c :: cs) =
      bs ++ (spaces (m + 2) ++ indentLines (m + 2) false (c :: cs)) := by
    cases bs with
    | nil => exact indentLines_atStart hbegins (List.cons_ne_nil _ _)
    | cons b bs =>
      rw [indentLines_append_breaks hbreaks (List.cons_ne_nil _ _),
        indentLines_atStart hbegins (List.cons_ne_nil _ _)]
  have hcolumn' : ((q.after bs).after (spaces (m + 2))).column = m + 2 := by
    rw [(Position.after_of_oneLine oneLine_spaces).2,
      Position.column_after_breaks hbreaks hcolumn, length_spaces, Nat.zero_add]
  have hfuel : (c :: cs).length < (((q.after bs).after (spaces (m + 2))).glyphs
      (indentLines (m + 2) false (c :: cs) ++ lineEnd (c :: cs) ++ rest)).length + 1 := by
    have := length_le_indentLines (m + 2) false (c :: cs)
    rw [List.append_assoc, Position.glyphs_append (clean_indentLines hcleanLines),
      List.length_append, Position.length_glyphs (clean_indentLines hcleanLines)]
    omega
  obtain ⟨text, last, hlines, hending⟩ := readsLines_words ⟨[], bs, false⟩ (words _ _)
    hcleanLines (List.cons_ne_nil _ _) hbegins hcolumn' hrest hfuel
  obtain ⟨deepest, hread, hindent⟩ := blockBreaks?_firstLine (m := m) (lineEnd (c :: cs) ++ rest)
    hclean hbreaks hc hcolumn
  rw [lineEnd_append (List.cons_ne_nil _ _), chompingOf_append hbegins (List.cons_ne_nil _ _),
    hwritten] at hheader
  rw [lineEnd_append (List.cons_ne_nil _ _), hwritten]
  simp only [List.append_assoc] at hheader hread hlines ⊢
  rw [block?_of_lines (m + 1) hheader hread hindent hlines]
  simp only [List.nil_append, Position.after_append, List.append_assoc, hending]

/-- A literal scalar is read back up to the line that follows it. -/
theorem block?_literal (hclean : Clean cs) (hne : cs ≠ []) (hrest : Follows (m + 1) rest) :
    block? true (m + 1) (q.glyphs (literalHeader cs ++
        '\n' :: (indentLines (m + 2) true cs ++ lineEnd cs ++ rest))) =
      some (cs, dropSpaces ((q.after (literalHeader cs ++
        '\n' :: (indentLines (m + 2) true cs ++ lineEnd cs))).glyphs rest)) := by
  have hheader := blockHeader?_text (q := q) (needsHint cs) (chompingOf cs)
    (indentLines (m + 2) true cs ++ lineEnd cs ++ rest)
  rw [← literalHeader_eq] at hheader
  have hcolumn : (q.after (literalHeader cs ++ ['\n'])).column = 0 := by
    rw [Position.after_append, Position.after_cons, Position.after_nil]
    exact (Position.next_of_break rfl).2
  have hsplit : literalHeader cs ++ '\n' :: (indentLines (m + 2) true cs ++ lineEnd cs) =
      (literalHeader cs ++ ['\n']) ++ (indentLines (m + 2) true cs ++ lineEnd cs) := by
    rw [List.append_assoc, List.singleton_append]
  have hrest' : Follows (m + 2) rest := hrest.mono (Nat.le_succ _)
  rw [hsplit, Position.after_append]
  -- The breaks in front of the first line with content are read apart from the lines.
  have hbreaks : ∀ c ∈ cs.takeWhile isBreak, isBreak c = true :=
    fun _ hc => List.mem_takeWhile_imp hc
  have hcs := List.takeWhile_append_dropWhile (p := isBreak) (l := cs)
  cases hlines : cs.dropWhile isBreak with
  | nil =>
    rw [hlines, List.append_nil] at hcs
    exact block?_breaks hclean hne (hcs ▸ hbreaks) hheader hcolumn hrest'
  | cons c lines =>
    rw [hlines] at hcs
    have hc : isBreak c = false := begins_dropWhile isBreak cs c (by rw [hlines]; rfl)
    generalize cs.takeWhile isBreak = bs at hbreaks hcs
    subst hcs
    exact block?_lines hclean hbreaks hc hheader hcolumn hrest'

end ApiModels.Yaml
