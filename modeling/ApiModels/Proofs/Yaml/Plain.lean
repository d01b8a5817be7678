import ApiModels.Proofs.Yaml.Indentation
import Mathlib.Tactic.SplitIfs

/-!
# Reading plain scalars back

A plain scalar on one line is read word by word (`plainParts?_words`), up to the colon behind a key
(`plain?_key`) or up to the line that follows it (`plain?_line`). A word may hold colons and number
signs as long as none of them is taken for a mark (`PlainSafe`).
-/

namespace ApiModels.Yaml

variable {p q : Position} {c : Char} {cs as bs word gap rest tail : List Char}
  {gs next after : List Glyph} {indent fuel : Nat}

/-! ## Parts -/

/-- What follows a part of a plain scalar in block style: further parts, or nothing. -/
def plainMore? (indent fuel : Nat) (gs : List Glyph) : Option Scanned :=
  let (next, after) := spanGap gs
  if hasTabInIndent indent next then none
  else if next.isEmpty then some ⟨[], false, gs⟩
  else if after.head?.any (·.column < indent) then some ⟨[], next.any (·.isBreak), after⟩
  else plainParts? false indent fuel next after

/-- A part is followed by further parts. -/
theorem plainParts?_succ (hmark : atDocumentMark gs = false) (hcomment : atOneOf ['#'] gs = false)
    (hpart : plainPart? false gs = some (word, after)) (hword : word ≠ []) :
    plainParts? false indent (fuel + 1) next gs = (plainMore? indent fuel after).map fun more =>
      { more with text := gapText next ++ word ++ more.text } := by
  have hempty : word.isEmpty = false := by
    cases word
    · exact absurd rfl hword
    · rfl
  rw [plainParts?, hmark, hcomment, plainMore?]
  simp only [Bool.or_self, Bool.false_eq_true, if_false, hpart, Option.bind_eq_bind,
    Option.bind_some, hempty, Bool.not_false, Bool.true_and]
  cases hasTabInIndent indent (spanGap after).1 with
  | true => rfl
  | false =>
    simp only [Bool.false_eq_true, if_false]
    split_ifs
    · rfl
    · rfl
    · rw [Option.map_eq_bind]
      rfl

theorem hasTabInIndent_eq_false (hgap : Clean gap) :
    hasTabInIndent indent (q.glyphs gap) = false := by
  rw [hasTabInIndent, List.any_eq_false]
  intro g hg
  have hmem := Position.char_mem_of_mem_glyphs hgap ((List.dropWhile_sublist _).subset hg)
  have htab : g.char ≠ '\t' := ne_of_not_isSpecial (hgap _ hmem) rfl
  simp [htab]

/-- The colon behind a key ends a plain scalar. -/
theorem plainMore?_key : plainMore? indent fuel (q.glyphs (':' :: rest)) =
    some ⟨[], false, q.glyphs (':' :: rest)⟩ := by
  have hspan : spanGap (q.glyphs (':' :: rest)) = ([], q.glyphs (':' :: rest)) :=
    spanGap_glyphs [] Clean.nil (fun _ h => nomatch h) (.of_cons ⟨rfl, by decide, rfl⟩)
  rw [plainMore?, hspan]
  rfl

/-- A line with less indentation, or the end of the text, ends a plain scalar. -/
theorem plainMore?_line (h : Follows indent rest) :
    plainMore? indent (fuel + 1) (q.glyphs ('\n' :: rest)) =
      some ⟨[], true, dropSpaces ((q.next '\n').glyphs rest)⟩ := by
  cases h with
  | nothing => rfl
  | @line j c cs hj hc hcomment =>
    have hclean : Clean ('\n' :: spaces j) := Clean.cons.2 ⟨rfl, clean_spaces⟩
    have hspan : spanGap (q.glyphs ('\n' :: (spaces j ++ c :: cs))) =
        (q.glyphs ('\n' :: spaces j), ((q.next '\n').after (spaces j)).glyphs (c :: cs)) := by
      refine spanGap_glyphs ('\n' :: spaces j) hclean ?_ (.of_cons hc)
      exact List.forall_mem_cons.2 ⟨rfl, fun d hd => eq_space_of_mem_spaces hd ▸ rfl⟩
    have hcolumn : ((q.next '\n').after (spaces j)).column < indent := by
      rw [(Position.after_of_oneLine oneLine_spaces).2, (Position.next_of_break rfl).2,
        length_spaces]
      omega
    rw [plainMore?, hspan, dropSpaces_glyphs (.of_cons hc), Position.glyphs_cons hc.notSpecial]
    simp only [hasTabInIndent_eq_false hclean]
    rw [Position.glyphs_cons (c := '\n') rfl]
    simp [hcolumn, isBreak]

/-- Spaces on the same line are followed by further parts. -/
theorem plainMore?_gap (hspaces : ∀ c ∈ gap, c = ' ') (hne : gap ≠ []) (hrest : Begins Solid rest)
    (hcolumn : indent ≤ (q.after gap).column) :
    plainMore? indent fuel (q.glyphs (gap ++ rest)) =
      plainParts? false indent fuel (q.glyphs gap) ((q.after gap).glyphs rest) := by
  have hclean : Clean gap := fun c hc => hspaces c hc ▸ rfl
  have hspan := spanGap_glyphs (p := q) gap hclean (fun c hc => hspaces c hc ▸ rfl) hrest
  have hempty : (q.glyphs gap).isEmpty = false := by
    cases gap with
    | nil => exact absurd rfl hne
    | cons c gap => rw [Position.glyphs_cons (Clean.cons.1 hclean).1]; rfl
  have hinside : ((q.after gap).glyphs rest).head?.any (·.column < indent) = false := by
    cases hhead : ((q.after gap).glyphs rest).head? with
    | none => rfl
    | some g =>
      have := Position.column_of_mem_head?_glyphs hhead
      simp only [Option.any_some, decide_eq_false_iff_not]
      omega
  rw [plainMore?, hspan]
  simp only [hasTabInIndent_eq_false hclean, hempty, hinside, Bool.false_eq_true, if_false]

/-! ## Words -/

/-- A text on one line that is taken for itself as a plain scalar. -/
structure PlainSafe (cs : List Char) : Prop where
  clean : Clean cs
  oneLine : OneLine cs
  first : Begins (fun c => c ≠ ' ' ∧ c ≠ '#') cs
  last : ∀ c ∈ cs.getLast?, c ≠ ' '
  noValue : ∀ as bs, cs = as ++ ':' :: bs → endsWord bs = false
  noComment : ∀ as bs, cs ≠ as ++ ' ' :: '#' :: bs

/-- White space ends a part. -/
theorem plainPart?_white (hspecial : isSpecial c = false) (hwhite : isWhite c = true) :
    plainPart? false (q.glyphs (c :: rest)) = some ([], q.glyphs (c :: rest)) := by
  rw [Position.glyphs_cons hspecial, plainPart?, isSpace_glyph, hwhite]
  rfl

/-- A word is read up to white space or the colon behind a key. -/
theorem plainPart?_word (hword : ∀ c ∈ word, Solid c)
    (hvalue : ∀ as bs, word = as ++ ':' :: bs → endsWord bs = false)
    (htail : plainPart? false ((p.after word).glyphs tail) =
      some ([], (p.after word).glyphs tail)) :
    plainPart? false (p.glyphs (word ++ tail)) = some (word, (p.after word).glyphs tail) := by
  induction word generalizing p with
  | nil => exact htail
  | cons c word ih =>
    obtain ⟨hc, hrest⟩ := List.forall_mem_cons.1 hword
    have hcolon : c = ':' → atWordEnd ((p.next c).glyphs (word ++ tail)) = false := by
      rintro rfl
      have hend : endsWord word = false := hvalue [] word rfl
      cases word with
      | nil => cases hend
      | cons d word =>
        have hd : Solid d := (List.forall_mem_cons.1 hrest).1
        rw [List.cons_append, Position.glyphs_cons hd.notSpecial, atWordEnd, isSpace_glyph,
          hd.isWhite_eq_false]
    have hpart := ih (p := p.next c) hrest
      (fun as bs h => hvalue (c :: as) bs (by rw [h]; rfl)) htail
    rw [List.cons_append, Position.glyphs_cons hc.notSpecial, plainPart?]
    simpa [hc.isWhite_eq_false, hpart] using hcolon

/-- Behind a word the scalar goes on as it does behind the white space there. -/
theorem plainParts?_word (hword : ∀ c ∈ word, Solid c)
    (hvalue : ∀ as bs, word = as ++ ':' :: bs → endsWord bs = false) (hcomment : '#' ∉ word.head?)
    (hne : word ≠ []) (hmark : atDocumentMark (p.glyphs (word ++ tail)) = false)
    (htail : plainPart? false ((p.after word).glyphs tail) =
      some ([], (p.after word).glyphs tail)) :
    plainParts? false indent (fuel + 1) next (p.glyphs (word ++ tail)) =
      (plainMore? indent fuel ((p.after word).glyphs tail)).map fun more =>
        { more with text := gapText next ++ word ++ more.text } := by
  refine plainParts?_succ hmark ?_ (plainPart?_word hword hvalue htail) hne
  obtain ⟨c, word, rfl⟩ := List.exists_cons_of_ne_nil hne
  have hc : c ≠ '#' := fun h => hcomment (h ▸ rfl)
  rw [List.cons_append, Position.glyphs_cons (hword c List.mem_cons_self).notSpecial]
  simp [atOneOf, hc]

/-- No word of a text ends with a colon. -/
theorem PlainSafe.noValue_word (h : PlainSafe (word ++ (gap ++ rest))) (hne : gap ≠ [])
    (hspaces : ∀ c ∈ gap, c = ' ') (as bs : List Char) (hword : word = as ++ ':' :: bs) :
    endsWord bs = false := by
  have hend := h.noValue as (bs ++ (gap ++ rest)) (by rw [hword, List.append_assoc]; rfl)
  cases bs with
  | cons => exact hend
  | nil =>
    obtain ⟨c, gap, rfl⟩ := List.exists_cons_of_ne_nil hne
    obtain rfl : c = ' ' := hspaces c List.mem_cons_self
    cases hend

/-- A text goes on behind each gap. -/
theorem PlainSafe.rest_ne_nil (h : PlainSafe (word ++ (gap ++ rest))) (hne : gap ≠ [])
    (hspaces : ∀ c ∈ gap, c = ' ') : rest ≠ [] := by
  rintro rfl
  have hlast := h.last (gap.getLast hne) (by
    rw [List.append_nil, List.getLast?_append_of_ne_nil _ hne, List.getLast?_eq_some_getLast hne]
    rfl)
  exact hlast (hspaces _ (List.getLast_mem hne))

theorem PlainSafe.behind_gap (h : PlainSafe (word ++ (gap ++ rest))) (hne : gap ≠ [])
    (hspaces : ∀ c ∈ gap, c = ' ') (hbegins : Begins (· ≠ ' ') rest) : PlainSafe rest where
  clean := (Clean.append.1 (Clean.append.1 h.clean).2).2
  oneLine := (OneLine.append.1 (OneLine.append.1 h.oneLine).2).2
  first := by
    intro c hc
    refine ⟨hbegins c hc, ?_⟩
    rintro rfl
    obtain ⟨rest, rfl⟩ : ∃ cs, rest = '#' :: cs := ⟨_, List.eq_cons_of_mem_head? hc⟩
    refine h.noComment (word ++ gap.dropLast) rest ?_
    have hlast : gap = gap.dropLast ++ [' '] := by
      rw [← hspaces _ (List.getLast_mem hne), List.dropLast_append_getLast]
    rw [hlast]
    simp
  last := by
    intro c hc
    refine h.last c ?_
    have hrest := h.rest_ne_nil hne hspaces
    rwa [List.getLast?_append_of_ne_nil _ (List.append_ne_nil_of_right_ne_nil _ hrest),
      List.getLast?_append_of_ne_nil _ hrest]
  noValue as bs hrest := h.noValue (word ++ (gap ++ as)) bs (by rw [hrest]; simp)
  noComment as bs hrest := h.noComment (word ++ (gap ++ as)) bs (by rw [hrest]; simp)

/-- The words of a text are read up to what ends the last of them. -/
theorem plainParts?_words {endsLine : Bool} (after : Position → List Glyph)
    (h : Words (· = ' ') cs) (hne : cs ≠ []) (hsafe : PlainSafe cs)
    (hstop : ∀ q : Position, plainPart? false (q.glyphs tail) = some ([], q.glyphs tail))
    (hmore : ∀ (q : Position) fuel,
      plainMore? indent (fuel + 1) (q.glyphs tail) = some ⟨[], endsLine, after q⟩)
    (hmark : atDocumentMark (p.glyphs (cs ++ tail)) = false) (hindent : indent ≤ p.column + 1)
    (hfuel : cs.length < fuel) :
    plainParts? false indent fuel next (p.glyphs (cs ++ tail)) =
      some ⟨gapText next ++ cs, endsLine, after (p.after cs)⟩ := by
  induction h generalizing p fuel next with
  | @last word hlast =>
    have hword : ∀ c ∈ word, Solid c := fun c hc =>
      ⟨hsafe.clean c hc, of_decide_eq_false (hlast c hc), hsafe.oneLine c hc⟩
    have hlength := List.length_pos_iff.2 hne
    obtain ⟨fuel, rfl⟩ : ∃ n, fuel = n + 1 + 1 := ⟨fuel - 2, by omega⟩
    rw [plainParts?_word hword hsafe.noValue (fun h => (hsafe.first _ h).2 rfl) hne hmark (hstop _),
      hmore, Option.map_some, List.append_nil]
  | @more word gap rest' hfirst hgapne hgap hbegins _ ih =>
    obtain ⟨fuel, rfl⟩ := Nat.exists_eq_succ_of_ne_zero (Nat.ne_zero_of_lt hfuel)
    have hspaces : ∀ c ∈ gap, c = ' ' := fun c hc => of_decide_eq_true (hgap c hc)
    have hbegins : Begins (· ≠ ' ') rest' := fun c hc => of_decide_eq_false (hbegins c hc)
    have hrest := hsafe.behind_gap hgapne hspaces hbegins
    have hrestne := hsafe.rest_ne_nil hgapne hspaces
    have hword : ∀ c ∈ word, Solid c := fun c hc =>
      ⟨(Clean.append.1 hsafe.clean).1 c hc, of_decide_eq_false (hfirst c hc),
        (OneLine.append.1 hsafe.oneLine).1 c hc⟩
    obtain ⟨d, gap, rfl⟩ := List.exists_cons_of_ne_nil hgapne
    obtain rfl : d = ' ' := hspaces d List.mem_cons_self
    obtain ⟨c, word, rfl⟩ : ∃ c cs, word = c :: cs := by
      refine List.exists_cons_of_ne_nil ?_
      rintro rfl
      exact (hsafe.first ' ' rfl).1 rfl
    have hcomment : '#' ∉ (c :: word).head? := fun h => (hsafe.first _ h).2 rfl
    obtain ⟨e, rest', rfl⟩ := List.exists_cons_of_ne_nil hrestne
    have hsolid : Begins Solid (e :: rest' ++ tail) :=
      .of_cons ⟨(Clean.cons.1 hrest.clean).1, hbegins e rfl, (OneLine.cons.1 hrest.oneLine).1⟩
    have hcolumn : p.column + 2 ≤ ((p.after (c :: word)).after (' ' :: gap)).column := by
      rw [(Position.after_of_oneLine fun d hd => hspaces d hd ▸ rfl).2,
        (Position.after_of_oneLine fun d hd => (hword d hd).notBreak).2, List.length_cons,
        List.length_cons]
      omega
    have hfuel' : (e :: rest').length < fuel := by
      simp only [List.length_append, List.length_cons] at hfuel ⊢
      omega
    rw [List.append_assoc, List.append_assoc] at hmark ⊢
    rw [plainParts?_word hword (hsafe.noValue_word hgapne hspaces) hcomment (List.cons_ne_nil _ _)
        hmark (plainPart?_white rfl rfl),
      plainMore?_gap hspaces hgapne hsolid (by omega),
      ih hrestne hrest (Position.atDocumentMark_eq_false (by omega)) (by omega) hfuel',
      Option.map_some, gapText_spaces hspaces, Position.after_append, Position.after_append]
    simp only [List.append_assoc]

/-- A plain scalar is read back up to the colon behind it. -/
theorem plain?_key (hne : cs ≠ []) (hsafe : PlainSafe cs)
    (hmark : atDocumentMark (p.glyphs (cs ++ ':' :: rest)) = false)
    (hindent : indent ≤ p.column + 1)
    (hrest : Begins (fun c => isSpecial c = false ∧ isWhite c = true) rest) :
    plain? false indent (p.glyphs (cs ++ ':' :: rest)) =
      some ⟨cs, false, (p.after cs).glyphs (':' :: rest)⟩ := by
  have hstop : ∀ q : Position,
      plainPart? false (q.glyphs (':' :: rest)) = some ([], q.glyphs (':' :: rest)) := by
    intro q
    rw [Position.glyphs_cons rfl, plainPart?, atWordEnd_of_white hrest]
    rfl
  refine plainParts?_words (fun q => q.glyphs (':' :: rest)) (words _ cs) hne hsafe hstop
    (fun _ _ => plainMore?_key) hmark hindent ?_
  rw [Position.glyphs_append hsafe.clean, List.length_append, Position.length_glyphs hsafe.clean]
  omega

/-- A plain scalar is read back up to the line that follows it. -/
theorem plain?_line (hne : cs ≠ []) (hsafe : PlainSafe cs)
    (hmark : atDocumentMark (p.glyphs (cs ++ '\n' :: rest)) = false)
    (hindent : indent ≤ p.column + 1) (hrest : Follows indent rest) :
    plain? false indent (p.glyphs (cs ++ '\n' :: rest)) =
      some ⟨cs, true, dropSpaces (((p.after cs).next '\n').glyphs rest)⟩ := by
  refine plainParts?_words (fun q => dropSpaces ((q.next '\n').glyphs rest)) (words _ cs) hne hsafe
    (fun _ => plainPart?_white rfl rfl) (fun _ _ => plainMore?_line hrest) hmark hindent ?_
  rw [Position.glyphs_append hsafe.clean, List.length_append, Position.length_glyphs hsafe.clean]
  omega

end ApiModels.Yaml
