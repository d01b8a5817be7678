import ApiModels.Proofs.Yaml.Scanning
import ApiModels.Proofs.Yaml.Written

/-!
# One token

What a scan reads at the front of the parts that a text is written from: scalars, empty collections,
and the marks of keys, values and items.
-/

namespace ApiModels.Yaml

/-- The place of the word at `g`, if it is noted as a possible key. -/
def Place.noted (tokens : List Token) (columns : List Nat) (g : Glyph) : Place → Option KeyPlace
  | .inline => some ⟨tokens.length, g, columns.head? == some g.column⟩
  | .afterKey => none

namespace Scan

variable {s s' s'' : Scan} {g : Glyph} {next gs : List Glyph} {p q : Position} {c mark : Char}
  {cs rest tail text : List Char} {columns : List Nat} {tokens : List Token} {place : Place}
  {m n : Nat}

/-! ## Marks of documents -/

theorem atTriple_of_ne (hspecial : isSpecial c = false) (hc : c ≠ mark) :
    atTriple mark (p.glyphs (c :: cs)) = false := by
  rw [Position.glyphs_cons hspecial, atTriple.eq_def]
  split
  · rename_i heq
    obtain ⟨rfl, -⟩ := List.cons.inj heq
    simp [hc]
  · rfl

theorem take_of_atTriple (h : atTriple mark gs = true) :
    (gs.map (·.char)).take 3 = List.replicate 3 mark := by
  rw [atTriple.eq_def] at h
  split at h
  · simp only [Bool.and_eq_true, decide_eq_true_eq] at h
    simp [h.1.1.1.2, h.1.1.2, h.1.2]
  · cases h

/-- A text that does not begin with three marks does not do so before another character. -/
theorem atTriple_append (hclean : Clean cs)
    (hfirst : (List.replicate 3 mark).isPrefixOf cs = false)
    (htail : Begins (fun c => isSpecial c = false ∧ c ≠ mark) tail) :
    atTriple mark (p.glyphs (cs ++ tail)) = false := by
  by_contra htriple
  have htake := take_of_atTriple (Bool.of_not_eq_false htriple)
  rw [Position.glyphs_append hclean, List.map_append, Position.map_char_glyphs hclean] at htake
  by_cases hlong : 3 ≤ cs.length
  · rw [List.take_append_of_le_length hlong] at htake
    have : (List.replicate 3 mark).isPrefixOf cs = true :=
      List.isPrefixOf_iff_prefix.2 (htake ▸ List.take_prefix 3 cs)
    rw [hfirst] at this
    cases this
  · have hmark : (((p.after cs).glyphs tail).map (·.char)).head? = some mark := by
      have hlt := Nat.lt_of_not_le hlong
      have hmark : (List.replicate 3 mark)[cs.length]? = some mark := by
        rw [List.getElem?_replicate, if_pos hlt]
      rw [← htake, List.getElem?_take_of_lt hlt, List.getElem?_append_right (Nat.le_refl _),
        Nat.sub_self] at hmark
      rwa [List.head?_eq_getElem?]
    cases tail with
    | nil => cases hmark
    | cons t tail =>
      rw [Position.glyphs_cons (htail t rfl).1] at hmark
      exact (htail t rfl).2 (Option.some.inj hmark)

theorem atDocumentMark_of_plainFirst (hfirst : PlainFirst cs) (hclean : Clean cs)
    (htail : Begins (fun c => isSpecial c = false ∧ c ≠ '-' ∧ c ≠ '.') tail) :
    atDocumentMark (p.glyphs (cs ++ tail)) = false := by
  rw [atDocumentMark, Bool.or_eq_false_iff]
  exact ⟨atTriple_append hclean hfirst.noDashes fun d hd => ⟨(htail d hd).1, (htail d hd).2.1⟩,
    atTriple_append hclean hfirst.noDots fun d hd => ⟨(htail d hd).1, (htail d hd).2.2⟩⟩

/-! ## Rounds -/

/-- A position is deeper than the innermost collection. -/
def Deeper (columns : List Nat) (p : Position) : Prop := ∀ m ∈ columns.head?, m < p.column

theorem Deeper.le (h : Deeper columns p) : ∀ m ∈ columns.head?, m ≤ p.column :=
  fun m hm => Nat.le_of_lt (h m hm)

theorem deeper_cons (h : m < p.column) : Deeper (m :: columns) p := by
  rintro _ ⟨⟩
  exact h

theorem noteKey?_before (hspecial : isSpecial c = false) :
    (before place tokens columns p (c :: cs)).noteKey? =
      some { before place tokens columns p (c :: cs) with
             key := place.noted tokens columns (p.glyph c) } := by
  have hrest : (before place tokens columns p (c :: cs)).rest = p.glyph c :: (p.next c).glyphs cs :=
    Position.glyphs_cons hspecial
  rw [noteKey?, hrest]
  cases place <;> rfl

/-- A round that begins at a token reads that token. -/
theorem Leads.of_step (hc : Solid c) (hcomment : c ≠ '#')
    (hcolumns : ∀ m ∈ columns.head?, m ≤ p.column)
    (hstep : (before place tokens columns p (c :: cs)).tokenStep? (p.glyph c)
      ((p.next c).glyphs cs) = some s')
    (h : Agrees s' s'') (hlength : s''.rest.length < (p.glyphs (c :: cs)).length) :
    Leads (before place tokens columns p (c :: cs)) s'' := by
  refine Leads.of_round rfl hc hcomment ?_ h hlength
  rw [round?, forgetStale?_of_none rfl rfl, Option.bind_eq_bind, Option.bind_some,
    closeDeeper_eq_self hcolumns, hstep]

/-- A word that is deeper than the column of the collection need not be a key, and cannot be one on
a later line. -/
theorem isPast_of_noted (hdeeper : Deeper columns p) (hline : p.line < q.line) :
    ∀ k ∈ place.noted tokens columns (p.glyph c), IsPast q k := by
  intro k hk
  cases place with
  | afterKey => cases hk
  | inline =>
    cases hk
    have hcolumn : columns.head? ≠ some p.column := fun h => Nat.lt_irrefl _ (hdeeper _ h)
    exact ⟨beq_eq_false_iff_ne.2 hcolumn, hline⟩

/-! ## Scalars -/

theorem rest_before (hspecial : isSpecial c = false) :
    (before place tokens columns p (c :: cs)).rest = p.glyph c :: (p.next c).glyphs cs :=
  Position.glyphs_cons hspecial

/-- Most characters begin neither a directive nor the mark of a document. -/
theorem not_mark (hs : s.rest = q.glyphs (c :: cs)) (hspecial : isSpecial c = false)
    (hc : c ∉ ['%', '-', '.']) :
    ¬ (decide ((q.glyph c).column = 0) && decide ((q.glyph c).char = '%')) = true ∧
      ¬ atTriple '-' s.rest = true ∧ ¬ atTriple '.' s.rest = true := by
  have hne {mark : Char} (hmark : mark ∈ ['%', '-', '.']) : c ≠ mark := by
    rintro rfl
    exact hc hmark
  have hpercent : c ≠ '%' := hne (by decide)
  refine ⟨by simp [hpercent], ?_, ?_⟩
  · rw [hs, atTriple_of_ne hspecial (hne (by decide))]
    exact Bool.false_ne_true
  · rw [hs, atTriple_of_ne hspecial (hne (by decide))]
    exact Bool.false_ne_true

theorem tokenStep?_quoted {style : Style} (hstyle : style = .singleQuoted ∨ style = .doubleQuoted) :
    (before place tokens columns p (style.mark :: cs)).tokenStep? (p.glyph style.mark) next =
      (before place tokens columns p (style.mark :: cs)).quotedStep? style := by
  obtain ⟨hdirective, hdashes, hdots⟩ := not_mark
    (s := before place tokens columns p (style.mark :: cs)) rfl style.solid_mark.notSpecial (by
      rw [Style.mark]
      split <;> decide)
  rw [tokenStep?, if_neg hdirective, if_neg hdashes, if_neg hdots]
  rcases hstyle with rfl | rfl <;> rfl

theorem quotedStep?_before {style : Style} (place : Place) (tokens : List Token)
    (columns : List Nat)
    (hquoted : quoted? style ((p.next style.mark).glyphs cs) = some (text, gs)) :
    (before place tokens columns p (style.mark :: cs)).quotedStep? style =
      some { rest := gs, tokens := .scalar style (String.ofList text) :: tokens,
             count := tokens.length + 1, columns := columns,
             key := place.noted tokens columns (p.glyph style.mark), keyAllowed := false } := by
  rw [quotedStep?, noteKey?_before style.solid_mark.notSpecial]
  simp only [rest_before style.solid_mark.notSpecial, List.drop_one, List.tail_cons, hquoted,
    Option.bind_eq_bind, Option.bind_some]
  rfl

theorem tokenStep?_literal :
    (before place tokens columns p ('|' :: cs)).tokenStep? (p.glyph '|') next =
      (before place tokens columns p ('|' :: cs)).blockStep? .literal := by
  obtain ⟨hdirective, hdashes, hdots⟩ := not_mark
    (s := before place tokens columns p ('|' :: cs)) rfl rfl (by decide)
  rw [tokenStep?, if_neg hdirective, if_neg hdashes, if_neg hdots]
  rfl

theorem blockStep?_before (place : Place) (tokens : List Token) (columns : List Nat)
    (hblock : block? true (m + 1) ((p.next '|').glyphs cs) = some (text, gs)) :
    (before place tokens (m :: columns) p ('|' :: cs)).blockStep? .literal =
      some { rest := gs, tokens := .scalar .literal (String.ofList text) :: tokens,
             count := tokens.length + 1, columns := m :: columns, keyAllowed := true } := by
  have hforget : (before place tokens (m :: columns) p ('|' :: cs)).forgetKey? =
      some (before place tokens (m :: columns) p ('|' :: cs)) := rfl
  have hleast : (before place tokens (m :: columns) p ('|' :: cs)).leastIndent = m + 1 := rfl
  rw [blockStep?, hforget]
  simp only [rest_before (c := '|') rfl, List.drop_one, List.tail_cons, decide_true, hleast, hblock,
    Option.bind_eq_bind, Option.bind_some]
  rfl

/-- A mark that begins a plain scalar is followed by another character of its word. -/
theorem atWordEnd_of_plainFirst (q : Position) (tail : List Char) (hfirst : PlainFirst (c :: cs))
    (hclean : Clean cs) (hc : c = '-' ∨ c = '?' ∨ c = ':') :
    atWordEnd (q.glyphs (cs ++ tail)) = false := by
  have hword := hfirst.inWord c cs rfl hc
  cases cs with
  | nil => cases hword
  | cons d cs =>
    rw [← atWordEnd_glyphs (p := q) (.of_cons (Clean.cons.1 hclean).1)] at hword
    rw [← hword, List.cons_append, Position.glyphs_cons (Clean.cons.1 hclean).1,
      Position.glyphs_cons (Clean.cons.1 hclean).1]
    rfl

theorem opensPlain_of_plainFirst (q : Position) (tail : List Char)
    (hfirst : PlainFirst (c :: cs)) (hclean : Clean cs) :
    opensPlain false c (q.glyphs (cs ++ tail)) = true := by
  have hword := atWordEnd_of_plainFirst q tail hfirst hclean
  rw [opensPlain]
  split_ifs with hdash hmark
  · have hend := hword (.inl hdash)
    cases hgs : q.glyphs (cs ++ tail) with
    | nil => rfl
    | cons g gs =>
      rw [hgs, atWordEnd, Glyph.isSpace, Bool.or_eq_false_iff] at hend
      simp [hend.1]
  · simp [hword (.inr (by simpa using hmark))]
  · simpa using hfirst.notIndicator c rfl

theorem tokenStep?_plain (hfirst : PlainFirst (c :: cs)) (hclean : Clean (c :: cs))
    (htail : Begins (fun c => isSpecial c = false ∧ c ≠ '-' ∧ c ≠ '.') tail) :
    (before place tokens columns p (c :: cs ++ tail)).tokenStep? (p.glyph c)
        ((p.next c).glyphs (cs ++ tail)) =
      (before place tokens columns p (c :: cs ++ tail)).plainStep? := by
  have hmark : atDocumentMark (before place tokens columns p (c :: cs ++ tail)).rest = false :=
    atDocumentMark_of_plainFirst hfirst hclean htail
  obtain ⟨hdashes, hdots⟩ := Bool.or_eq_false_iff.1 hmark
  have hindicator : c ∉ indicators := by
    simpa using hfirst.notIndicator c rfl
  have hne : ∀ d ∈ indicators, c ≠ d := fun d hd h => hindicator (h ▸ hd)
  have hword := atWordEnd_of_plainFirst (p.next c) tail hfirst (Clean.cons.1 hclean).2
  have hopens := opensPlain_of_plainFirst (p.next c) tail hfirst (Clean.cons.1 hclean).2
  rw [tokenStep?, if_neg (by simp [hne '%' (by decide)]), if_neg (Bool.eq_false_iff.1 hdashes),
    if_neg (Bool.eq_false_iff.1 hdots)]
  dsimp only [Position.glyph_char]
  split
  case h_11 =>
    have hflow : (before place tokens columns p (c :: cs ++ tail)).inFlow = false := rfl
    rw [hflow, if_neg (fun h => ?_), if_neg (fun h => ?_), if_neg (fun h => ?_),
      if_neg (by simp [hne '|' (by decide)]), if_neg (by simp [hne '>' (by decide)]), if_pos hopens]
    all_goals
      simp only [Bool.false_or, Bool.and_eq_true, decide_eq_true_eq] at h
      rw [hword (by simp [h.1])] at h
      cases h.2
  all_goals exact absurd rfl (hne _ (by decide))

theorem plainStep?_before (place : Place) (tokens : List Token) (columns : List Nat)
    {endsLine : Bool} (hspecial : isSpecial c = false)
    (hplain : plain? false (before place tokens columns p (c :: cs)).leastIndent
      (p.glyphs (c :: cs)) = some ⟨text, endsLine, gs⟩) :
    (before place tokens columns p (c :: cs)).plainStep? =
      some { rest := gs, tokens := .scalar .plain (String.ofList text) :: tokens,
             count := tokens.length + 1, columns := columns,
             key := place.noted tokens columns (p.glyph c), keyAllowed := endsLine } := by
  rw [plainStep?, noteKey?_before hspecial, Option.bind_eq_bind, Option.bind_some]
  have hread : plain? (Scan.inFlow { before place tokens columns p (c :: cs) with
        key := place.noted tokens columns (p.glyph c) })
      (Scan.leastIndent { before place tokens columns p (c :: cs) with
        key := place.noted tokens columns (p.glyph c) })
      (before place tokens columns p (c :: cs)).rest = some ⟨text, endsLine, gs⟩ := hplain
  rw [hread]
  rfl

/-- A scan that begins with a line goes on behind it. -/
def LeadsToLine (s : Scan) (tokens : List Token) (columns : List Nat) (rest : List Char) : Prop :=
  ∃ q : Position, q.column = 0 ∧ Leads s (before .inline tokens columns q rest)

theorem LeadsToLine.here (hp : p.column = 0) :
    LeadsToLine (before .inline tokens columns p rest) tokens columns rest := ⟨p, hp, .refl _⟩

theorem LeadsToLine.of_leads (h : Leads s s') (h' : LeadsToLine s' tokens columns rest) :
    LeadsToLine s tokens columns rest := by
  obtain ⟨q, hq, hline⟩ := h'
  exact ⟨q, hq, h.trans hline⟩

theorem LeadsToLine.trans {tokens' : List Token} {columns' : List Nat} {rest' : List Char}
    (h : LeadsToLine s tokens columns rest)
    (h' : ∀ q : Position, q.column = 0 →
      LeadsToLine (before .inline tokens columns q rest) tokens' columns' rest') :
    LeadsToLine s tokens' columns' rest' := by
  obtain ⟨q, hq, hline⟩ := h
  exact .of_leads hline (h' q hq)

theorem leads_quoted {style : Style} {text : String}
    (hstyle : style = .singleQuoted ∨ style = .doubleQuoted) (hclean : Clean cs)
    (hcolumn : m < p.column) (hrest : Follows n rest)
    (hquoted : quoted? style ((p.next style.mark).glyphs (cs ++ style.mark :: '\n' :: rest)) =
      some (text.toList, (((p.next style.mark).after cs).next style.mark).glyphs ('\n' :: rest))) :
    LeadsToLine
      (before place tokens (m :: columns) p (style.mark :: (cs ++ style.mark :: '\n' :: rest)))
      (.scalar style text :: tokens) (m :: columns) rest := by
  have hdeeper : Deeper (m :: columns) p := deeper_cons hcolumn
  have hcomment : style.mark ≠ '#' := by
    rw [Style.mark]
    split <;> decide
  have hline : p.line < ((((p.next style.mark).after cs).next style.mark).next '\n').line := by
    have := Position.line_le_after (p.next style.mark) cs
    rw [(Position.next_of_break rfl).1, (Position.next_of_not_break style.solid_mark.notBreak).1]
    rw [(Position.next_of_not_break style.solid_mark.notBreak).1] at this
    omega
  have hwritten : Clean (style.mark :: (cs ++ [style.mark, '\n'])) := by
    simp [hclean, style.solid_mark.notSpecial, show isSpecial '\n' = false from rfl]
  have hlength :
      ((((((p.next style.mark).after cs).next style.mark).next '\n').glyphs rest).length <
        (p.glyphs (style.mark :: (cs ++ style.mark :: '\n' :: rest))).length) := by
    simpa using Position.length_glyphs_lt_append hwritten (List.cons_ne_nil _ _) rest
  have hread := quotedStep?_before place tokens (m :: columns) hquoted
  rw [String.ofList_toList] at hread
  exact ⟨_, (Position.next_of_break rfl).2, Leads.of_step style.solid_mark hcomment hdeeper.le
    ((tokenStep?_quoted hstyle).trans hread)
    (agrees_before (isPast_of_noted hdeeper hline) skipGap_feed hrest) hlength⟩

theorem leads_plain {text : String} (hne : text.toList ≠ []) (hfirst : PlainFirst text.toList)
    (hsafe : PlainSafe text.toList) (hcolumn : m < p.column) (hrest : Follows (m + 1) rest) :
    LeadsToLine (before place tokens (m :: columns) p (text.toList ++ '\n' :: rest))
      (.scalar .plain text :: tokens) (m :: columns) rest := by
  have hdeeper : Deeper (m :: columns) p := deeper_cons hcolumn
  have hread : plain? false (m + 1) (p.glyphs (text.toList ++ '\n' :: rest)) = _ :=
    plain?_line hne hsafe (Position.atDocumentMark_eq_false (by omega)) (by omega) hrest
  have htail : Begins (fun c => isSpecial c = false ∧ c ≠ '-' ∧ c ≠ '.') ('\n' :: rest) :=
    .of_cons ⟨rfl, by decide, by decide⟩
  have hline : p.line < ((p.after text.toList).next '\n').line := by
    rw [(Position.next_of_break rfl).1]
    exact Nat.lt_succ_of_le (Position.line_le_after _ _)
  have hlength := Position.length_glyphs_lt_append (p := p) (q := (p.after text.toList).next '\n')
    (Clean.append.2 ⟨hsafe.clean, Clean.cons.2 ⟨rfl, Clean.nil⟩⟩)
    (List.append_ne_nil_of_left_ne_nil hne ['\n']) rest
  rw [List.append_assoc, List.singleton_append] at hlength
  have htext := String.ofList_toList (s := text)
  obtain ⟨c, cs, hcs⟩ := List.exists_cons_of_ne_nil hne
  rw [hcs] at hfirst hsafe hread hline hlength htext ⊢
  have hsolid : Solid c := ⟨hsafe.clean c List.mem_cons_self, (hsafe.first c rfl).1,
    hsafe.oneLine c List.mem_cons_self⟩
  have hstep := plainStep?_before place tokens (m :: columns) hsolid.notSpecial hread
  rw [htext] at hstep
  exact ⟨_, (Position.next_of_break rfl).2, Leads.of_step hsolid (hsafe.first c rfl).2 hdeeper.le
    ((tokenStep?_plain hfirst hsafe.clean htail).trans hstep)
    (agrees_before (isPast_of_noted hdeeper hline) skipGap_dropSpaces hrest) hlength⟩

theorem leads_literal {text : String} (hne : text.toList ≠ []) (hclean : Clean text.toList)
    (hcolumn : m < p.column) (hrest : Follows (m + 1) rest) :
    LeadsToLine (before place tokens (m :: columns) p ('|' :: (literalHeader text.toList ++
        '\n' :: (indentLines (m + 2) true text.toList ++ lineEnd text.toList ++ rest))))
      (.scalar .literal text :: tokens) (m :: columns) rest := by
  have hread := block?_literal (q := p.next '|') hclean hne hrest
  have hstep := blockStep?_before place tokens columns hread
  rw [String.ofList_toList] at hstep
  have hcolumn' : ((p.next '|').after (literalHeader text.toList ++
      '\n' :: (indentLines (m + 2) true text.toList ++ lineEnd text.toList))).column = 0 := by
    have hsplit : literalHeader text.toList ++
        '\n' :: (indentLines (m + 2) true text.toList ++ lineEnd text.toList) =
        (literalHeader text.toList ++ ['\n']) ++ (indentLines (m + 2) true text.toList ++
          lineEnd (indentLines (m + 2) true text.toList)) := by
      simp [lineEnd_indentLines]
    rw [hsplit, Position.after_append]
    exact column_after_lineEnd _ _
  have hwritten : Clean ('|' :: (literalHeader text.toList ++
      '\n' :: (indentLines (m + 2) true text.toList ++ lineEnd text.toList))) :=
    Clean.cons.2 ⟨rfl, Clean.append.2 ⟨clean_literalHeader,
      Clean.cons.2 ⟨rfl, Clean.append.2 ⟨clean_indentLines hclean, clean_lineEnd⟩⟩⟩⟩
  refine ⟨_, hcolumn', Leads.of_step ⟨rfl, by decide, rfl⟩ (by decide) (deeper_cons hcolumn).le
    (tokenStep?_literal.trans hstep)
    (agrees_before (fun k hk => nomatch hk) skipGap_dropSpaces hrest) ?_⟩
  refine Nat.lt_of_lt_of_eq
    (Position.length_glyphs_lt_append (p := p) hwritten (List.cons_ne_nil _ _) rest) ?_
  simp only [List.cons_append, List.append_assoc]

/-- A scalar at the end of a line is read. -/
theorem leads_scalar {style : Style} {text : String} (h : style.Holds text) (hcolumn : m < p.column)
    (hrest : Follows (m + 1) rest) :
    LeadsToLine
      (before place tokens (m :: columns) p (endLine (scalarText (m + 2) style text) ++ rest))
      (.scalar style text :: tokens) (m :: columns) rest := by
  have hpos : ∀ c, isBreak c = false → 0 < (p.next c).column := fun c hc =>
    (Position.next_of_not_break hc).2 ▸ Nat.succ_pos _
  have hquotes : ∀ {c cs}, isBreak c = false →
      endLine (c :: (cs ++ [c])) ++ rest = c :: (cs ++ c :: '\n' :: rest) := by
    intro c cs hc
    rw [endLine_eq, ← List.cons_append, lineEnd_append (List.cons_ne_nil _ _),
      lineEnd_oneLine (OneLine.cons.2 ⟨hc, OneLine.nil⟩)]
    simp
  cases h with
  | plain hne _ hfirst hsafe =>
    rw [scalarText, endLine_eq, lineEnd_oneLine hsafe.oneLine, List.append_assoc]
    exact leads_plain hne hfirst hsafe hcolumn hrest
  | singleQuoted hsafe =>
    have hafter : Begins (fun c => isSpecial c = false ∧ c ≠ '\'') ('\n' :: rest) :=
      .of_cons ⟨rfl, by decide⟩
    rw [scalarText_singleQuoted, hquotes rfl]
    exact leads_quoted (.inl rfl) (clean_singleText hsafe.clean) hcolumn hrest
      (quoted?_single hsafe (Nat.succ_pos (m + 1)) (hpos '\'' rfl) hafter)
  | doubleQuoted =>
    rw [scalarText, hquotes rfl]
    exact leads_quoted (.inr rfl) clean_flatMap_escape hcolumn hrest (quoted?_double (hpos '"' rfl))
  | literal hne _ hclean =>
    have hsplit : scalarText (m + 2) .literal text =
        '|' :: (literalHeader text.toList ++ ['\n']) ++ indentLines (m + 2) true text.toList := by
      simp [scalarText]
    rw [hsplit, endLine_eq, lineEnd_literal hne]
    simpa using leads_literal hne hclean hcolumn hrest

end Scan

end ApiModels.Yaml
