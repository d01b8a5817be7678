import ApiModels.Proofs.Yaml.Steps

/-!
# Keys and items

A word on one line before a colon becomes a key when the colon is read: then the mark of a key is
put before it, with the mark of its mapping if the word is the first key (`leads_simpleKey`). The
question mark of another key and the dash of an item are read at once (`leads_complexKey`,
`leads_item`).
-/

namespace ApiModels.Yaml

namespace Scan

variable {s : Scan} {p q : Position} {c : Char} {cs rest : List Char} {columns : List Nat}
  {tokens : List Token} {place : Place} {t : Token} {m n : Nat} {style : Style} {text : String}

/-! ## Where collections begin -/

/-- One more than the column of the innermost collection. -/
def leastColumn : List Nat → Nat
  | [] => 0
  | column :: _ => column + 1

/-- The mark of a collection at a column, if the collection begins there. -/
def opening (columns : List Nat) (column : Nat) (t : Token) : List Token :=
  if leastColumn columns ≤ column then [t] else []

/-- The columns of the collections that are open behind the beginning of a collection. -/
def opened (columns : List Nat) (column : Nat) : List Nat :=
  if leastColumn columns ≤ column then column :: columns else columns

theorem leastIndent_eq (s : Scan) : s.leastIndent = leastColumn s.columns := by
  cases hcolumns : s.columns <;> simp [leastIndent, leastColumn, hcolumns]

theorem head_le_of_leastColumn (h : leastColumn columns ≤ n + 1) : ∀ m ∈ columns.head?, m ≤ n := by
  cases columns with
  | nil => exact fun m hm => nomatch hm
  | cons m columns =>
    rintro _ ⟨⟩
    exact Nat.le_of_succ_le_succ h

theorem leastColumn_cons_le (columns : List Nat) : leastColumn (n :: columns) ≤ n + 1 :=
  Nat.le_refl _

theorem opening_of_le (h : leastColumn columns ≤ n) : opening columns n t = [t] := if_pos h

theorem opened_of_le (h : leastColumn columns ≤ n) : opened columns n = n :: columns := if_pos h

/-- No collection begins within another one at its column. -/
theorem opening_self : opening (m :: columns) m t = [] := if_neg (Nat.not_succ_le_self m)

theorem opened_self : opened (m :: columns) m = m :: columns := if_neg (Nat.not_succ_le_self m)

/-- The next token is at the column of the innermost collection. -/
theorem exists_opened (h : leastColumn columns ≤ n + 1) :
    ∃ outer, opened columns n = n :: outer := by
  rw [opened]
  split
  case isTrue => exact ⟨columns, rfl⟩
  case isFalse hnot =>
    cases columns with
    | nil => exact absurd (Nat.zero_le n) hnot
    | cons m columns =>
      obtain rfl : m = n := by
        simp only [leastColumn] at h hnot
        omega
      exact ⟨columns, rfl⟩

/-! ## Simple keys -/

/-- The place of a word at a position. -/
def wordPlace (tokens : List Token) (columns : List Nat) (p : Position) (c : Char) : KeyPlace :=
  ⟨tokens.length, p.glyph c, columns.head? == some p.column⟩

/-- The scan behind a word that may turn out to be a key. -/
def behindWord (tokens : List Token) (columns : List Nat) (k : KeyPlace) (t : Token)
    (gs : List Glyph) : Scan where
  rest := gs
  tokens := t :: tokens
  count := tokens.length + 1
  columns := columns
  key := some k
  keyAllowed := false

/-- A scalar in quotation marks before a colon is read as a word. -/
theorem tokenStep?_quotedWord {written : List Char}
    (hstyle : style = .singleQuoted ∨ style = .doubleQuoted)
    (hread : quoted? style ((p.next style.mark).glyphs (written ++ style.mark :: ':' :: rest)) =
      some (text.toList,
        (((p.next style.mark).after written).next style.mark).glyphs (':' :: rest))) :
    (before .inline tokens columns p
        (style.mark :: (written ++ [style.mark]) ++ ':' :: rest)).tokenStep? (p.glyph style.mark)
        ((p.next style.mark).glyphs (written ++ [style.mark] ++ ':' :: rest)) =
      some (behindWord tokens columns (wordPlace tokens columns p style.mark) (.scalar style text)
        ((p.after (style.mark :: (written ++ [style.mark]))).glyphs (':' :: rest))) := by
  have hstep := quotedStep?_before .inline tokens columns hread
  rw [String.ofList_toList] at hstep
  simp only [List.cons_append, List.append_assoc, List.nil_append, Position.after_cons,
    Position.after_append, Position.after_nil]
  exact (tokenStep?_quoted hstyle).trans hstep

/-- A scalar before a colon is read as a word. -/
theorem exists_keyWord (h : style.Holds text) (hn : 0 < n) (hline : OneLine text.toList)
    (hcolumns : leastColumn columns ≤ p.column + 1)
    (hrest : Begins (fun c => isSpecial c = false ∧ isWhite c = true) rest) :
    ∃ c cs, scalarText n style text = c :: cs ∧ Solid c ∧ c ≠ '#' ∧
      (before .inline tokens columns p (c :: cs ++ ':' :: rest)).tokenStep? (p.glyph c)
          ((p.next c).glyphs (cs ++ ':' :: rest)) =
        some (behindWord tokens columns (wordPlace tokens columns p c) (.scalar style text)
          ((p.after (c :: cs)).glyphs (':' :: rest))) := by
  have hpos : ∀ c, isBreak c = false → 0 < (p.next c).column := fun c hc =>
    (Position.next_of_not_break hc).2 ▸ Nat.succ_pos _
  cases h with
  | plain hne _ hfirst hsafe =>
    have htext := String.ofList_toList (s := text)
    obtain ⟨c, cs, hcs⟩ := List.exists_cons_of_ne_nil hne
    rw [hcs] at hfirst hsafe htext
    have hsolid : Solid c := ⟨hsafe.clean c List.mem_cons_self, (hsafe.first c rfl).1,
      hsafe.oneLine c List.mem_cons_self⟩
    have htail : Begins (fun c => isSpecial c = false ∧ c ≠ '-' ∧ c ≠ '.') (':' :: rest) :=
      .of_cons ⟨rfl, by decide, by decide⟩
    have hmark := atDocumentMark_of_plainFirst (p := p) hfirst hsafe.clean htail
    have hread : plain? false (before .inline tokens columns p (c :: cs ++ ':' :: rest)).leastIndent
        (p.glyphs (c :: cs ++ ':' :: rest)) = _ :=
      plain?_key (List.cons_ne_nil _ _) hsafe hmark (leastIndent_eq _ ▸ hcolumns) hrest
    have hstep := plainStep?_before .inline tokens columns hsolid.notSpecial hread
    rw [htext] at hstep
    exact ⟨c, cs, hcs, hsolid, (hsafe.first c rfl).2,
      (tokenStep?_plain hfirst hsafe.clean htail).trans hstep⟩
  | singleQuoted hsafe =>
    have hafter : Begins (fun c => isSpecial c = false ∧ c ≠ '\'') (':' :: rest) :=
      .of_cons ⟨rfl, by decide⟩
    exact ⟨'\'', _, rfl, ⟨rfl, by decide, rfl⟩, by decide, tokenStep?_quotedWord (.inl rfl)
      (quoted?_single hsafe hn (hpos '\'' rfl) hafter)⟩
  | doubleQuoted =>
    exact ⟨'"', _, rfl, ⟨rfl, by decide, rfl⟩, by decide, tokenStep?_quotedWord (.inr rfl)
      (quoted?_double (hpos '"' rfl))⟩
  | literal _ hfeed => exact absurd (hline _ hfeed) (by decide)

/-- The mark of a key is put before the word that has turned out to be one. -/
theorem valueStep?_behindWord :
    (behindWord tokens columns (wordPlace tokens columns p c) (.scalar style text)
        (q.glyphs (':' :: rest))).valueStep? =
      some (before .afterKey
        (.value :: .scalar style text :: .key :: (opening columns p.column .blockMapping ++ tokens))
        (opened columns p.column) (q.next ':') rest) := by
  have hcount : tokens.length + 1 + 1 - tokens.length = 2 := by omega
  have hrest : q.glyphs (':' :: rest) = q.glyph ':' :: (q.next ':').glyphs rest :=
    Position.glyphs_cons rfl
  simp only [valueStep?, behindWord, wordPlace, openAt, putAt, leastIndent_eq, inFlow,
    List.isEmpty_nil, Bool.not_true, Bool.not_false, Bool.true_and, decide_eq_true_eq, opening,
    opened]
  split <;> simp [skip, push, before, hrest, hcount]

theorem tokenStep?_colon (hs : s.rest = q.glyphs (':' :: rest))
    (hrest : Begins (fun c => isSpecial c = false ∧ isWhite c = true) rest) :
    s.tokenStep? (q.glyph ':') ((q.next ':').glyphs rest) = s.valueStep? := by
  obtain ⟨hdirective, hdashes, hdots⟩ := not_mark hs rfl (by decide)
  rw [tokenStep?, if_neg hdirective, if_neg hdashes, if_neg hdots]
  simp [atWordEnd_of_white hrest]

/-- A word on one line is read as a key when the colon behind it is read. -/
theorem leads_simpleKey (tokens : List Token) (h : style.Holds text) (hn : 0 < n)
    (hline : OneLine text.toList) (hsize : Position.bytes text.toList ≤ 128)
    (hcolumns : leastColumn columns ≤ p.column + 1)
    (hrest : Begins (fun c => isSpecial c = false ∧ isWhite c = true) rest) :
    ∃ q : Position, p.column < q.column ∧
      Leads (before .inline tokens columns p (scalarText n style text ++ ':' :: rest))
        (before .afterKey
          (.value :: .scalar style text :: .key ::
            (opening columns p.column .blockMapping ++ tokens))
          (opened columns p.column) q rest) := by
  obtain ⟨c, cs, hwritten, hsolid, hcomment, hstep⟩ := exists_keyWord h hn hline hcolumns hrest
  have hclean : Clean (c :: cs) := hwritten ▸ clean_scalarText h
  have hone : OneLine (c :: cs) := hwritten ▸ oneLine_scalarText h hline
  -- Four bytes for each byte of the text and two marks are fewer than the 1024 bytes of a key.
  have hbytes : Position.bytes (c :: cs) ≤ 4 * Position.bytes text.toList + 2 :=
    hwritten ▸ bytes_scalarText_le h hline
  obtain ⟨hsameLine, hcolumn⟩ := Position.after_of_oneLine (p := p) hone
  have hoffset : (p.after (c :: cs)).offset = p.offset + Position.bytes (c :: cs) :=
    Position.offset_after
  have hhead := head_le_of_leastColumn hcolumns
  refine ⟨(p.after (c :: cs)).next ':', ?_, ?_⟩
  · rw [(Position.next_of_not_break rfl).2, hcolumn]
    omega
  rw [hwritten]
  refine (Leads.of_step hsolid hcomment hhead hstep (.refl _) ?_).trans ?_
  · exact Position.length_glyphs_lt_append hclean (List.cons_ne_nil _ _) _
  · have hfresh : ∀ key ∈ [some (wordPlace tokens columns p c)],
        ∀ k ∈ key, isStale ((p.after (c :: cs)).glyph ':') k = false := by
      refine List.forall_mem_singleton.2 ?_
      rintro _ ⟨⟩
      simp only [isStale, wordPlace, hsameLine, hoffset, Bool.or_eq_false_iff,
        decide_eq_false_iff_not]
      omega
    have hdeeper : ∀ m ∈ columns.head?, m ≤ ((p.after (c :: cs)).glyph ':').column := by
      intro m hm
      have := hhead m hm
      rw [Position.glyph_column, hcolumn]
      omega
    refine Leads.of_round rfl ⟨rfl, by decide, rfl⟩ (by decide) ?_ (.refl _) ?_
    · rw [round?, forgetStale?_of_fresh hfresh, Option.bind_eq_bind, Option.bind_some,
        closeDeeper_eq_self hdeeper, tokenStep?_colon rfl hrest, valueStep?_behindWord]
    · exact Position.length_glyphs_lt_append (Clean.cons.2 ⟨rfl, Clean.nil⟩)
        (List.cons_ne_nil _ _) rest

/-! ## Marks at the front of a line -/

theorem openHere?_before (hspecial : isSpecial c = false) :
    (before .inline tokens columns p (c :: cs)).openHere? t =
      some (before .inline (opening columns p.column t ++ tokens) (opened columns p.column) p
        (c :: cs)) := by
  have hrest : p.glyphs (c :: cs) = p.glyph c :: (p.next c).glyphs cs :=
    Position.glyphs_cons hspecial
  simp only [openHere?, openAt, putAt, leastIndent_eq, inFlow, before, column, hrest, opening,
    opened, List.isEmpty_nil, Bool.not_true, Bool.not_false, Bool.false_eq_true, Bool.true_and,
    if_false, decide_true, if_true, decide_eq_true_eq, List.head?_cons, Option.map_some,
    Option.getD_some]
  split <;> simp

theorem skip_before (hspecial : isSpecial c = false) :
    (before place tokens columns p (c :: cs)).skip 1 =
      before place tokens columns (p.next c) cs := by
  rw [skip, rest_before hspecial]
  rfl

theorem forgetKey?_before :
    (before place tokens columns p cs).forgetKey? = some (before place tokens columns p cs) := rfl

theorem itemStep?_before :
    (before .inline tokens columns p ('-' :: cs)).itemStep? =
      some (before .inline (.item :: (opening columns p.column .blockSequence ++ tokens))
        (opened columns p.column) (p.next '-') cs) := by
  rw [itemStep?, openHere?_before rfl, Option.bind_eq_bind, Option.bind_some, forgetKey?_before,
    Option.bind_some, skip_before rfl]
  rfl

theorem keyStep?_before :
    (before .inline tokens columns p ('?' :: cs)).keyStep? =
      some (before .inline (.key :: (opening columns p.column .blockMapping ++ tokens))
        (opened columns p.column) (p.next '?') cs) := by
  rw [keyStep?, openHere?_before rfl, Option.bind_eq_bind, Option.bind_some, forgetKey?_before,
    Option.bind_some, skip_before rfl]
  rfl

theorem valueStep?_before :
    (before .inline tokens columns p (':' :: cs)).valueStep? =
      some (before .inline (.value :: (opening columns p.column .blockMapping ++ tokens))
        (opened columns p.column) (p.next ':') cs) := by
  have hkey : (before .inline tokens columns p (':' :: cs)).key = none := rfl
  rw [valueStep?, hkey]
  dsimp only
  rw [openHere?_before rfl, Option.bind_eq_bind, Option.bind_some, skip_before rfl]
  rfl

theorem atWordEnd_space : atWordEnd (q.glyphs (' ' :: cs)) = true :=
  atWordEnd_of_white (.of_cons ⟨rfl, rfl⟩)

theorem tokenStep?_item :
    (before place tokens columns p ('-' :: ' ' :: cs)).tokenStep? (p.glyph '-')
        ((p.next '-').glyphs (' ' :: cs)) =
      (before place tokens columns p ('-' :: ' ' :: cs)).itemStep? := by
  have hdash : Clean ['-'] := Clean.cons.2 ⟨rfl, Clean.nil⟩
  have hdashes : atTriple '-' (before place tokens columns p ('-' :: ' ' :: cs)).rest = false :=
    atTriple_append hdash rfl (.of_cons ⟨rfl, by decide⟩)
  have hdots : atTriple '.' (before place tokens columns p ('-' :: ' ' :: cs)).rest = false :=
    atTriple_of_ne rfl (by decide)
  rw [tokenStep?, if_neg (by simp), if_neg (Bool.eq_false_iff.1 hdashes),
    if_neg (Bool.eq_false_iff.1 hdots)]
  simp [atWordEnd_space]

theorem tokenStep?_key :
    (before place tokens columns p ('?' :: ' ' :: cs)).tokenStep? (p.glyph '?')
        ((p.next '?').glyphs (' ' :: cs)) =
      (before place tokens columns p ('?' :: ' ' :: cs)).keyStep? := by
  obtain ⟨hdirective, hdashes, hdots⟩ := not_mark
    (s := before place tokens columns p ('?' :: ' ' :: cs)) rfl rfl (by decide)
  rw [tokenStep?, if_neg hdirective, if_neg hdashes, if_neg hdots]
  simp [atWordEnd_space]

/-- A mark at the front of a line and the space behind it are read. -/
theorem Leads.of_mark {tokens' : List Token} {columns' : List Nat} (hc : Solid c)
    (hcomment : c ≠ '#') (hcolumns : leastColumn columns ≤ p.column + 1)
    (hstep : (before .inline tokens columns p (c :: ' ' :: cs)).tokenStep? (p.glyph c)
        ((p.next c).glyphs (' ' :: cs)) =
      some (before .inline tokens' columns' (p.next c) (' ' :: cs))) :
    Leads (before .inline tokens columns p (c :: ' ' :: cs))
      (before .inline tokens' columns' ((p.next c).next ' ') cs) := by
  refine (Leads.of_step hc hcomment (head_le_of_leastColumn hcolumns) hstep (.refl _) ?_).trans
    (leads_spaces .inline 1)
  exact Position.length_glyphs_lt_append (Clean.cons.2 ⟨hc.notSpecial, Clean.nil⟩)
    (List.cons_ne_nil _ _) _

theorem column_behind_mark (hc : isBreak c = false) :
    ((p.next c).next ' ').column = p.column + 2 := by
  rw [(Position.next_of_not_break rfl).2, (Position.next_of_not_break hc).2]

/-- The dash of an item is read. -/
theorem leads_item (hcolumns : leastColumn columns ≤ p.column + 1) :
    Leads (before .inline tokens columns p ('-' :: ' ' :: rest))
      (before .inline (.item :: (opening columns p.column .blockSequence ++ tokens))
        (opened columns p.column) ((p.next '-').next ' ') rest) :=
  Leads.of_mark ⟨rfl, by decide, rfl⟩ (by decide) hcolumns (tokenStep?_item.trans itemStep?_before)

/-- The question mark of a key is read. -/
theorem leads_questionMark (hcolumns : leastColumn columns ≤ p.column + 1) :
    Leads (before .inline tokens columns p ('?' :: ' ' :: rest))
      (before .inline (.key :: (opening columns p.column .blockMapping ++ tokens))
        (opened columns p.column) ((p.next '?').next ' ') rest) :=
  Leads.of_mark ⟨rfl, by decide, rfl⟩ (by decide) hcolumns (tokenStep?_key.trans keyStep?_before)

/-- The colon on a line of its own is read. -/
theorem leads_colon (hm : p.column = m) :
    Leads (before .inline tokens (m :: columns) p (':' :: ' ' :: rest))
      (before .inline (.value :: tokens) (m :: columns) ((p.next ':').next ' ') rest) := by
  have hstep := (tokenStep?_colon (s := before .inline tokens (m :: columns) p (':' :: ' ' :: rest))
    rfl (.of_cons ⟨rfl, rfl⟩)).trans valueStep?_before
  rw [hm, opening_self, opened_self, List.nil_append] at hstep
  exact Leads.of_mark ⟨rfl, by decide, rfl⟩ (by decide) (Nat.le_of_eq (congrArg (· + 1) hm.symm))
    hstep

/-- A scan that begins with a line passes over its indentation. -/
theorem exists_leads_indentation (n : Nat) (hq : q.column = 0) :
    ∃ q' : Position, q'.column = n ∧ ∀ tokens columns cs,
      Leads (before .inline tokens columns q (spaces n ++ cs))
        (before .inline tokens columns q' cs) := by
  refine ⟨q.after (spaces n), ?_, fun tokens columns cs => leads_spaces .inline n⟩
  rw [(Position.after_of_oneLine oneLine_spaces).2, hq, length_spaces, Nat.zero_add]

/-- A key behind a question mark is read, and the colon on the line below it. -/
theorem leads_complexKey (tokens : List Token) (rest : List Char) (h : style.Holds text)
    (hm : p.column = m) (hcolumns : leastColumn columns ≤ m + 1) :
    ∃ q : Position, q.column = m + 2 ∧
      Leads
        (before .inline tokens columns p
          ('?' :: ' ' :: (endLine (scalarText (m + 2) style text) ++
            (spaces m ++ ':' :: ' ' :: rest))))
        (before .inline
          (.value :: .scalar style text :: .key :: (opening columns m .blockMapping ++ tokens))
          (opened columns m) q rest) := by
  subst hm
  obtain ⟨outer, hopened⟩ := exists_opened hcolumns
  have hcolumn : ((p.next '?').next ' ').column = p.column + 2 := column_behind_mark rfl
  have hfollows : Follows (p.column + 1) (spaces p.column ++ ':' :: ' ' :: rest) :=
    .line (Nat.lt_succ_self _) ⟨rfl, by decide, rfl⟩ (by decide)
  have hscalar : LeadsToLine
      (before .inline (.key :: (opening columns p.column .blockMapping ++ tokens))
        (p.column :: outer) ((p.next '?').next ' ')
        (endLine (scalarText (p.column + 2) style text) ++ (spaces p.column ++ ':' :: ' ' :: rest)))
      (.scalar style text :: .key :: (opening columns p.column .blockMapping ++ tokens))
      (p.column :: outer) (spaces p.column ++ ':' :: ' ' :: rest) :=
    leads_scalar h (by omega) hfollows
  obtain ⟨q, hq, hline⟩ := hscalar
  obtain ⟨q', hq', hindentation⟩ := exists_leads_indentation p.column hq
  refine ⟨(q'.next ':').next ' ', ?_, (leads_questionMark hcolumns).trans ?_⟩
  · rw [column_behind_mark rfl, hq']
  · rw [hopened]
    exact hline.trans ((hindentation _ _ _).trans (leads_colon hq'))

end Scan

end ApiModels.Yaml
