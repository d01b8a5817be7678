import ApiModels.Proofs.Yaml.Keys

/-!
# Collections on lines of their own

An empty collection is a pair of brackets at the end of a line (`leads_noItems`, `leads_noEntries`).
The items of a sequence are read line by line (`leads_items`); the sequence has a mark of its own
unless it stands at the column of the mapping around it (`leads_itemLine`).
-/

namespace ApiModels.Yaml

/-- The mark of a text. -/
def textToken (text : String) : Token := .scalar (.ofText text) text

/-- The marks of the items of a list. -/
def itemTokens (values : List String) : List Token :=
  values.flatMap fun value => [.item, textToken value]

variable {rest : List Char} {n : Nat}

theorem drop_spaces (cs : List Char) : (spaces n ++ cs).drop n = cs :=
  List.drop_left' length_spaces

theorem itemsText_cons (value : String) (values : List String) :
    itemsText n ((value :: values).map .ofText) =
      spaces n ++ ('-' :: ' ' :: (endLine (scalarText (n + 2) (.ofText value) value) ++
        itemsText n (values.map .ofText))) := by
  simp [itemsText, nodeText, Node.ofText, Place.gap, Place.deeper]

/-- The items of a sequence are no part of a node before them with more indentation. -/
theorem follows_itemsText (values : List String) (hrest : Follows (n + 1) rest) :
    Follows (n + 1) (itemsText n (values.map .ofText) ++ rest) := by
  cases values with
  | nil => exact hrest
  | cons value values =>
    rw [itemsText_cons, List.append_assoc]
    exact .line (Nat.lt_succ_self n) ⟨rfl, by decide, rfl⟩ (by decide)

namespace Scan

variable {g : Glyph} {p q : Position} {c d : Char} {gs : List Glyph} {columns : List Nat}
  {tokens : List Token} {place : Place} {start stop : Token} {key : Option KeyPlace}

/-! ## Empty collections -/

/-- The scan behind the bracket that begins a flow collection. -/
def within (tokens : List Token) (columns : List Nat) (key : Option KeyPlace) (gs : List Glyph) :
    Scan where
  rest := gs
  tokens := tokens
  count := tokens.length
  columns := columns
  outer := [key]

theorem openFlow?_before (hspecial : isSpecial c = false) :
    (before place tokens columns p (c :: rest)).openFlow? start =
      some (within (start :: tokens) columns (place.noted tokens columns (p.glyph c))
        ((p.next c).glyphs rest)) := by
  rw [openFlow?, noteKey?_before hspecial]
  simp only [skip, push, rest_before hspecial, List.drop_one, List.tail_cons, Option.bind_eq_bind,
    Option.bind_some]
  rfl

theorem closeFlow?_within :
    (within tokens columns key (g :: gs)).closeFlow? stop =
      some { rest := gs, tokens := stop :: tokens, count := tokens.length + 1, columns := columns,
             key := key, keyAllowed := false } := rfl

/-- The second of two brackets is near enough to the first one. -/
theorem forgetStale?_within {before : List Token} (hc : isBreak c = false) :
    (within tokens columns (place.noted before columns (p.glyph c)) gs).forgetStale?
        ((p.next c).glyph d) =
      some (within tokens columns (place.noted before columns (p.glyph c)) gs) := by
  have hsize : c.utf8Size ≤ 4 := c.utf8Size_le_four
  refine forgetStale?_of_fresh fun key hkey k hk => ?_
  obtain rfl | rfl := List.mem_pair.1 hkey
  · cases hk
  · cases place with
    | afterKey => cases hk
    | inline =>
      cases hk
      simp only [isStale, (Position.next_of_not_break hc).1, Position.offset_next,
        Bool.or_eq_false_iff, decide_eq_false_iff_not]
      omega

/-- A pair of brackets at the end of a line is read. -/
theorem leads_brackets (hc : Solid c) (hcomment : c ≠ '#') (hd : Solid d) (hcomment' : d ≠ '#')
    (hopen : ∀ (s : Scan) (next : List Glyph), s.rest = p.glyphs (c :: d :: '\n' :: rest) →
      s.tokenStep? (p.glyph c) next = s.openFlow? start)
    (hclose : ∀ (s : Scan) (next : List Glyph), s.rest = (p.next c).glyphs (d :: '\n' :: rest) →
      s.tokenStep? ((p.next c).glyph d) next = s.closeFlow? stop)
    (hdeeper : Deeper columns p) (hrest : Follows n rest) :
    LeadsToLine (before place tokens columns p (c :: d :: '\n' :: rest))
      (stop :: start :: tokens) columns rest := by
  have hpast : ∀ k ∈ place.noted tokens columns (p.glyph c),
      IsPast (((p.next c).next d).next '\n') k := by
    refine isPast_of_noted hdeeper ?_
    rw [(Position.next_of_break rfl).1, (Position.next_of_not_break hd.notBreak).1,
      (Position.next_of_not_break hc.notBreak).1]
    exact Nat.lt_succ_self _
  have hinFlow : ∀ s : Scan, s.inFlow = true → s.closeDeeper (p.next c).column = s :=
    fun s hs => if_pos hs
  have hround : (within (start :: tokens) columns (place.noted tokens columns (p.glyph c))
      ((p.next c).glyphs (d :: '\n' :: rest))).round? ((p.next c).glyph d)
        (((p.next c).next d).glyphs ('\n' :: rest)) =
      some { rest := ((p.next c).next d).glyphs ('\n' :: rest), tokens := stop :: start :: tokens,
             count := tokens.length + 2, columns := columns,
             key := place.noted tokens columns (p.glyph c), keyAllowed := false } := by
    rw [round?, forgetStale?_within hc.notBreak, Option.bind_eq_bind, Option.bind_some,
      hinFlow _ rfl, hclose _ _ rfl, Position.glyphs_cons hd.notSpecial, closeFlow?_within]
    rfl
  have hclosing : Clean [d, '\n'] := Clean.cons.2 ⟨hd.notSpecial, Clean.cons.2 ⟨rfl, Clean.nil⟩⟩
  refine ⟨((p.next c).next d).next '\n', (Position.next_of_break rfl).2, ?_⟩
  refine (Leads.of_step hc hcomment hdeeper.le
    ((hopen _ _ rfl).trans (openFlow?_before hc.notSpecial)) (.refl _) ?_).trans
    (Leads.of_round rfl hd hcomment' hround (agrees_before hpast skipGap_feed hrest) ?_)
  · exact Position.length_glyphs_lt_append (Clean.cons.2 ⟨hc.notSpecial, Clean.nil⟩)
      (List.cons_ne_nil _ _) _
  · exact Position.length_glyphs_lt_append hclosing (List.cons_ne_nil _ _) rest

/-- An empty list at the end of a line is read. -/
theorem leads_noItems (hdeeper : Deeper columns p) (hrest : Follows n rest) :
    LeadsToLine (before place tokens columns p ('[' :: ']' :: '\n' :: rest))
      (.flowSequenceEnd :: .flowSequence :: tokens) columns rest := by
  refine leads_brackets ⟨rfl, by decide, rfl⟩ (by decide) ⟨rfl, by decide, rfl⟩ (by decide)
    (fun s next hs => ?_) (fun s next hs => ?_) hdeeper hrest
  all_goals
    obtain ⟨hdirective, hdashes, hdots⟩ := not_mark hs rfl (by decide)
    rw [tokenStep?, if_neg hdirective, if_neg hdashes, if_neg hdots]
    rfl

/-- An empty map at the end of a line is read. -/
theorem leads_noEntries (hdeeper : Deeper columns p) (hrest : Follows n rest) :
    LeadsToLine (before place tokens columns p ('\x7b' :: '\x7d' :: '\n' :: rest))
      (.flowMappingEnd :: .flowMapping :: tokens) columns rest := by
  refine leads_brackets ⟨rfl, by decide, rfl⟩ (by decide) ⟨rfl, by decide, rfl⟩ (by decide)
    (fun s next hs => ?_) (fun s next hs => ?_) hdeeper hrest
  all_goals
    obtain ⟨hdirective, hdashes, hdots⟩ := not_mark hs rfl (by decide)
    rw [tokenStep?, if_neg hdirective, if_neg hdashes, if_neg hdots]
    rfl

/-! ## Items -/

/-- An item is read, the mark of its sequence before it if the sequence begins there. -/
theorem leads_itemLine (tokens : List Token) (value : String) (hn : p.column = n)
    (hcolumns : leastColumn columns ≤ n + 1) (hrest : Follows (n + 1) rest) :
    LeadsToLine
      (before .inline tokens columns p
        ('-' :: ' ' :: (endLine (scalarText (n + 2) (.ofText value) value) ++ rest)))
      (textToken value :: .item :: (opening columns n .blockSequence ++ tokens))
      (opened columns n) rest := by
  subst hn
  obtain ⟨outer, hopened⟩ := exists_opened hcolumns
  have hcolumn : ((p.next '-').next ' ').column = p.column + 2 := column_behind_mark rfl
  refine .of_leads (leads_item hcolumns) ?_
  rw [hopened]
  exact leads_scalar (Style.holds_ofText value) (by omega) hrest

/-- The items at the column of the innermost collection are read. -/
theorem leads_items (values : List String) (hq : q.column = 0) (hrest : Follows (n + 1) rest) :
    LeadsToLine
      (before .inline tokens (n :: columns) q (itemsText n (values.map .ofText) ++ rest))
      ((itemTokens values).reverse ++ tokens) (n :: columns) rest := by
  induction values generalizing q tokens with
  | nil => exact .here hq
  | cons value values ih =>
    obtain ⟨q', hq', hindentation⟩ := exists_leads_indentation n hq
    have hline := leads_itemLine tokens value hq' (leastColumn_cons_le columns)
      (follows_itemsText values hrest)
    rw [opening_self, opened_self] at hline
    rw [itemsText_cons, List.append_assoc, List.cons_append, List.cons_append, List.append_assoc]
    refine .of_leads (hindentation _ _ _) (hline.trans fun q hq => ?_)
    simpa [itemTokens] using ih hq

end Scan

end ApiModels.Yaml
