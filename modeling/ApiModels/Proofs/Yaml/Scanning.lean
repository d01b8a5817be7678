import ApiModels.Proofs.Yaml.Indentation
import ApiModels.Yaml.Tokens

/-!
# Scans that go on alike

A scan goes on in rounds, one token at a time. What it reads does not depend on white space in front
of the next token (`Agrees.of_skipGap`) nor on the place of a word that can no longer be a key
(`agrees_before`), so that every scan of a block collection that is done with a node can be taken
for one that begins with the line behind it (`Scan.before`).
-/

namespace ApiModels.Yaml

namespace Scan

/-- A scan outside of flow collections at a place in a text, where no word is noted as a possible
key. -/
def before (place : Place) (tokens : List Token) (columns : List Nat) (p : Position)
    (cs : List Char) : Scan where
  rest := p.glyphs cs
  tokens := tokens
  count := tokens.length
  columns := columns
  keyAllowed := place = .inline

/-- Two scans that read the same tokens. -/
def Agrees (s s' : Scan) : Prop := ∀ fuel, run? fuel s = run? fuel s'

/-- After some rounds the one scan reads what the other one does. Each round uses up a glyph. -/
def Leads (s s' : Scan) : Prop :=
  ∃ rounds, rounds + s'.rest.length ≤ s.rest.length ∧ ∀ fuel, run? (fuel + rounds) s = run? fuel s'

/-- A round: the token at the front. -/
def round? (s : Scan) (g : Glyph) (next : List Glyph) : Option Scan := do
  let s ← s.forgetStale? g
  (s.closeDeeper g.column).tokenStep? g next

variable {s s' s'' : Scan} {g : Glyph} {next gs : List Glyph} {p q : Position} {c : Char}
  {cs rest : List Char} {columns : List Nat} {tokens : List Token} {place : Place}
  {inFlow keyAllowed : Bool} {fuel n : Nat}

/-! ## Gaps between tokens -/

theorem skipGap_solid (hc : Solid c) (hcomment : c ≠ '#') :
    skipGap inFlow keyAllowed false (p.glyphs (c :: cs)) = (keyAllowed, p.glyphs (c :: cs)) := by
  have htab : c ≠ '\t' := ne_of_not_isSpecial hc.notSpecial rfl
  have hmark : c ≠ byteOrderMark := ne_of_not_isSpecial hc.notSpecial rfl
  rw [Position.glyphs_cons hc.notSpecial, skipGap]
  simp [hc.notBreak, hc.notSpace, hcomment, htab, hmark]

theorem skipGap_space :
    skipGap inFlow keyAllowed false (p.glyphs (' ' :: cs)) =
      skipGap inFlow keyAllowed false ((p.next ' ').glyphs cs) := by
  rw [Position.glyphs_cons rfl, skipGap]
  rfl

theorem skipGap_feed :
    skipGap false keyAllowed false (p.glyphs ('\n' :: cs)) =
      skipGap false true false ((p.next '\n').glyphs cs) := by
  rw [Position.glyphs_cons rfl, skipGap]
  cases keyAllowed <;> rfl

theorem skipGap_dropSpaces :
    skipGap inFlow keyAllowed false (dropSpaces gs) = skipGap inFlow keyAllowed false gs := by
  induction gs with
  | nil => rfl
  | cons g gs ih =>
    by_cases hg : g.char = ' '
    · rw [dropSpaces, List.dropWhile_cons_of_pos (by simp [hg]), ← dropSpaces, ih, skipGap]
      simp [Glyph.isBreak, isBreak, hg]
    · rw [dropSpaces, List.dropWhile_cons_of_neg (by simp [hg])]

/-! ## Rounds -/

/-- A round passes over the gap in front of a token and reads the token. -/
theorem run?_succ (fuel : Nat) (s : Scan) : run? (fuel + 1) s =
    match skipGap s.inFlow s.keyAllowed false s.rest with
    | (keyAllowed, []) => { s with rest := [], keyAllowed := keyAllowed }.finish?
    | (keyAllowed, g :: next) =>
      ({ s with rest := g :: next, keyAllowed := keyAllowed }.round? g next).bind (run? fuel) := by
  rw [run?]
  rcases skipGap s.inFlow s.keyAllowed false s.rest with ⟨keyAllowed, _ | ⟨g, next⟩⟩
  · rfl
  · exact (Option.bind_assoc _ _ _).symm

theorem Agrees.refl (s : Scan) : Agrees s s := fun _ => rfl

/-- Scans agree that differ in the white space before the next token. -/
theorem Agrees.of_skipGap (hskip : skipGap s.inFlow s.keyAllowed false s.rest =
    skipGap s.inFlow keyAllowed false gs) :
    Agrees s { s with rest := gs, keyAllowed := keyAllowed } := by
  rintro (_ | fuel)
  · rfl
  · rw [run?_succ, run?_succ, hskip]
    rfl

theorem Leads.refl (s : Scan) : Leads s s := ⟨0, by omega, fun _ => rfl⟩

theorem Leads.trans (h : Leads s s') (h' : Leads s' s'') : Leads s s'' := by
  obtain ⟨rounds, hlength, hrun⟩ := h
  obtain ⟨rounds', hlength', hrun'⟩ := h'
  refine ⟨rounds' + rounds, by omega, fun fuel => ?_⟩
  rw [← Nat.add_assoc, hrun, hrun']

theorem Leads.of_agrees (h : Agrees s s') (hlength : s'.rest.length ≤ s.rest.length) : Leads s s' :=
  ⟨0, by omega, h⟩

/-- A round leads to what the scan behind its token agrees with. -/
theorem Leads.of_round (hrest : s.rest = p.glyphs (c :: cs)) (hc : Solid c) (hcomment : c ≠ '#')
    (hround : s.round? (p.glyph c) ((p.next c).glyphs cs) = some s') (h : Agrees s' s'')
    (hlength : s''.rest.length < s.rest.length) : Leads s s'' := by
  refine ⟨1, by omega, fun fuel => ?_⟩
  have hskip : skipGap s.inFlow s.keyAllowed false s.rest =
      (s.keyAllowed, p.glyph c :: (p.next c).glyphs cs) := by
    rw [hrest, skipGap_solid hc hcomment, Position.glyphs_cons hc.notSpecial]
  have hs : { s with rest := p.glyph c :: (p.next c).glyphs cs } = s := by
    rw [← Position.glyphs_cons hc.notSpecial, ← hrest]
  rw [run?_succ, hskip]
  simp only [hs, hround, Option.bind_some]
  exact h fuel

/-! ## White space -/

/-- Spaces do not matter to a scan. -/
theorem leads_spaces (place : Place) (n : Nat) :
    Leads (before place tokens columns p (spaces n ++ cs))
      (before place tokens columns (p.after (spaces n)) cs) := by
  induction n generalizing p with
  | zero => exact .refl _
  | succ n ih =>
    have hspaces : spaces (n + 1) = ' ' :: spaces n := List.replicate_succ
    have hskip : Agrees (before place tokens columns p (' ' :: (spaces n ++ cs)))
        (before place tokens columns (p.next ' ') (spaces n ++ cs)) :=
      Agrees.of_skipGap skipGap_space
    rw [hspaces]
    refine (Leads.of_agrees hskip ?_).trans ih
    exact Nat.le_of_lt (Position.length_glyphs_lt_append (Clean.cons.2 ⟨rfl, Clean.nil⟩)
      (List.cons_ne_nil _ _) _)

/-- Behind a line feed a scan begins with a line. -/
theorem leads_feed : Leads (before place tokens columns p ('\n' :: cs))
    (before .inline tokens columns (p.next '\n') cs) := by
  have hskip : Agrees (before place tokens columns p ('\n' :: cs))
      (before .inline tokens columns (p.next '\n') cs) := Agrees.of_skipGap skipGap_feed
  refine Leads.of_agrees hskip ?_
  exact Nat.le_of_lt (Position.length_glyphs_lt_append (Clean.cons.2 ⟨rfl, Clean.nil⟩)
    (List.cons_ne_nil _ _) _)

/-! ## Keys -/

/-- A key that need not be one and stands on an earlier line than `q`. -/
def IsPast (q : Position) (k : KeyPlace) : Prop := k.required = false ∧ k.start.line < q.line

theorem dropKey?_of_past {key : Option KeyPlace} (h : ∀ k ∈ key, IsPast q k) :
    dropKey? key = some none := by
  rw [dropKey?, if_neg]
  cases key with
  | none => simp
  | some k => simp [(h k rfl).1]

theorem forgetStale?_of_none (hkey : s.key = none) (houter : s.outer = []) :
    s.forgetStale? g = some s := by
  cases s
  subst hkey houter
  rfl

/-- Words that are near enough stay possible keys, also those in front of flow collections. -/
theorem forgetStale?_of_fresh (h : ∀ key ∈ s.key :: s.outer, ∀ k ∈ key, isStale g k = false) :
    s.forgetStale? g = some s := by
  have hcheck : ∀ key, (∀ k ∈ key, isStale g k = false) →
      (if key.any (isStale g) then dropKey? key else some key) = some key := by
    intro key hkey
    refine if_neg ?_
    cases key with
    | none => simp
    | some k => simp [hkey k rfl]
  obtain ⟨hkey, houter⟩ := List.forall_mem_cons.1 h
  have hmap : ∀ outer : List (Option KeyPlace), (∀ key ∈ outer, ∀ k ∈ key, isStale g k = false) →
      outer.mapM (fun key => if key.any (isStale g) then dropKey? key else some key) =
        some outer := by
    intro outer houter
    induction outer with
    | nil => rfl
    | cons key outer ih =>
      obtain ⟨hkey, houter⟩ := List.forall_mem_cons.1 houter
      rw [List.mapM_cons, hcheck key hkey, ih houter]
      rfl
  simp only [forgetStale?, hcheck _ hkey, hmap _ houter]
  rfl

theorem forgetStale?_of_past (hkey : ∀ k ∈ s.key, IsPast q k) (houter : s.outer = [])
    (hg : q.line ≤ g.line) : s.forgetStale? g = some { s with key := none } := by
  have hcheck : (if s.key.any (isStale g) then dropKey? s.key else some s.key) = some none := by
    cases hs : s.key with
    | none => rfl
    | some k =>
      have hstale : isStale g k = true := by
        have := (hkey k hs).2
        simp only [isStale, Bool.or_eq_true, decide_eq_true_eq]
        exact .inl (Nat.lt_of_lt_of_le this hg)
      rw [Option.any_some, if_pos hstale, ← hs, dropKey?_of_past hkey]
  rw [forgetStale?, houter]
  simp only [hcheck]
  rfl

/-- Behind the line of a scalar it does not matter that the scalar was noted as a possible key. -/
theorem agrees_before {key : Option KeyPlace} (hkey : ∀ k ∈ key, IsPast q k)
    (hskip : skipGap false keyAllowed false gs = skipGap false true false (q.glyphs rest))
    (hrest : Follows n rest) :
    Agrees { rest := gs, tokens := tokens, count := tokens.length, columns := columns, key := key,
             keyAllowed := keyAllowed }
      (before .inline tokens columns q rest) := by
  rintro (_ | fuel)
  · rfl
  rw [run?_succ, run?_succ]
  simp only [before, inFlow, List.isEmpty_nil, Bool.not_true, decide_true, hskip]
  cases hrest with
  | nothing =>
    have hnone : dropKey? none = some none := rfl
    simp [finish?, forgetKey?, closeAll, closeWhile, inFlow, skipGap, dropKey?_of_past hkey, hnone]
  | @line j c cs hj hc hcomment =>
    have hline : q.line ≤ ((q.after (spaces j)).glyph c).line := Position.line_le_after _ _
    rw [← skipGap_dropSpaces, dropSpaces_glyphs (.of_cons hc), skipGap_solid hc hcomment,
      Position.glyphs_cons hc.notSpecial]
    dsimp only
    simp only [round?]
    rw [forgetStale?_of_past hkey rfl hline, forgetStale?_of_none rfl rfl]

/-! ## Ends of collections -/

theorem closeWhile_cons {isDone : Nat → Bool} {m : Nat} (hcolumns : s.columns = m :: columns)
    (hm : isDone m = true) :
    s.closeWhile isDone = ({ s with columns := columns }.push .blockEnd).closeWhile isDone := by
  simp only [closeWhile, push, hcolumns, List.takeWhile_cons_of_pos hm, List.length_cons,
    List.drop_succ_cons, List.replicate_succ', List.append_assoc, List.singleton_append]
  congr 1
  omega

theorem closeDeeper_eq_self {column : Nat} (h : ∀ m ∈ s.columns.head?, m ≤ column) :
    s.closeDeeper column = s := by
  have hnone : s.columns.takeWhile (column < ·) = [] := by
    cases hcolumns : s.columns with
    | nil => rfl
    | cons m columns =>
      have hm : m ≤ column := h m (by rw [hcolumns]; rfl)
      exact List.takeWhile_cons_of_neg (by simpa using hm)
  rw [closeDeeper, closeWhile, hnone]
  split <;> rfl

/-- A collection ends before a line with less indentation and at the end of the text. -/
theorem agrees_close {m : Nat} (hrest : Follows m rest) (hcolumn : q.column = 0) :
    Agrees (before .inline tokens (m :: columns) q rest)
      (before .inline (.blockEnd :: tokens) columns q rest) := by
  rintro (_ | fuel)
  · rfl
  rw [run?_succ, run?_succ]
  simp only [before, inFlow, List.isEmpty_nil, Bool.not_true, decide_true]
  cases hrest with
  | nothing =>
    simp only [Position.glyphs_nil, skipGap, finish?, closeAll, inFlow, List.isEmpty_nil,
      Bool.not_true]
    rw [if_neg Bool.false_ne_true, if_neg Bool.false_ne_true, closeWhile_cons rfl rfl]
    rfl
  | @line j c cs hj hc hcomment =>
    have hdeeper : decide (((q.after (spaces j)).glyph c).column < m) = true := by
      rw [Position.glyph_column, (Position.after_of_oneLine oneLine_spaces).2, hcolumn,
        length_spaces]
      simpa using hj
    rw [← skipGap_dropSpaces, dropSpaces_glyphs (.of_cons hc), skipGap_solid hc hcomment,
      Position.glyphs_cons hc.notSpecial]
    simp only [round?, Option.bind_eq_bind]
    rw [forgetStale?_of_none rfl rfl, forgetStale?_of_none rfl rfl, Option.bind_some,
      Option.bind_some, closeDeeper, closeWhile_cons rfl hdeeper]
    rfl

end Scan

end ApiModels.Yaml
