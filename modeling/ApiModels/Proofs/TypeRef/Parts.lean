import Mathlib.Data.List.Infix
import ApiModels.Proofs.TypeRef.Splitting

/-!
# Parts between commas at depth zero

The bracket depth rises with each opening bracket and falls with each closing one, but never below
zero. The text is cut at the commas at depth zero. The depth that one part hands on to the next is
therefore zero, and counting it afresh from the beginning of each part makes no difference: every
comma left in a part stands at a depth above zero by the part's own count
(`commasInside_of_splitAtDepth`). Such texts are not cut any further
(`CommasInside.splitTopLevel_eq`).
-/

namespace ApiModels.TypeRef

open ApiModels.Text

variable {cs first part : List Char} {parts rest : List (List Char)} {c : Char} {depth : Nat}

/-- The bracket depth behind `c`. -/
def depthBehind (depth : Nat) (c : Char) : Nat :=
  if c = '<' then depth + 1 else if c = '>' then depth - 1 else depth

/-- The bracket depth at the end of a text that begins at `depth`. -/
def bracketDepth (depth : Nat) (cs : List Char) : Nat := cs.foldl depthBehind depth

/-- Whether every comma of a text that begins at `depth` stands at a depth above zero. -/
def CommasInside (depth : Nat) (cs : List Char) : Prop :=
  ∀ before, before ++ [','] <+: cs → 0 < bracketDepth depth before

theorem commasInside_nil (depth : Nat) : CommasInside depth [] := by
  intro before h
  simp at h

theorem commasInside_cons_iff :
    CommasInside depth (c :: cs) ↔ (c = ',' → 0 < depth) ∧ CommasInside (depthBehind depth c) cs := by
  constructor
  · intro h
    constructor
    · intro hc
      exact h [] (by simp [hc])
    · intro before hbefore
      exact h (c :: before) (List.cons_prefix_cons.2 ⟨rfl, hbefore⟩)
  · intro ⟨hc, hcs⟩ before hbefore
    cases before with
    | nil => exact hc (by simpa [eq_comm] using hbefore)
    | cons d before =>
      rw [List.cons_append, List.cons_prefix_cons] at hbefore
      obtain ⟨rfl, hbefore⟩ := hbefore
      exact hcs before hbefore

/-! ## Cutting at each character -/

theorem splitAtDepth_cons (h : c = ',' → 0 < depth) :
    splitAtDepth depth (c :: cs) = consFirst c (splitAtDepth (depthBehind depth c) cs) := by
  rw [splitAtDepth, depthBehind]
  split
  · rfl
  · split
    · rfl
    · have huncut : ¬(c = ',' ∧ depth = 0) := by
        intro hcut
        have hdepth := h hcut.1
        omega
      rw [if_neg huncut]

theorem splitAtDepth_ne_nil (depth : Nat) (cs : List Char) : splitAtDepth depth cs ≠ [] := by
  induction cs generalizing depth with
  | nil => exact List.cons_ne_nil _ _
  | cons c cs ih =>
    by_cases h : c = ',' → 0 < depth
    · rw [splitAtDepth_cons h]
      cases hparts : splitAtDepth (depthBehind depth c) cs <;> exact List.cons_ne_nil _ _
    · obtain ⟨rfl, rfl⟩ : c = ',' ∧ depth = 0 := by simpa using h
      rw [splitAtDepth_comma]
      exact List.cons_ne_nil _ _

theorem exists_splitAtDepth_eq_cons (depth : Nat) (cs : List Char) :
    ∃ first rest, splitAtDepth depth cs = first :: rest :=
  List.exists_cons_of_ne_nil (splitAtDepth_ne_nil depth cs)

/-! ## The parts of any text -/

theorem intercalate_splitAtDepth (depth : Nat) (cs : List Char) :
    List.intercalate [','] (splitAtDepth depth cs) = cs := by
  induction cs generalizing depth with
  | nil => rfl
  | cons c cs ih =>
    by_cases h : c = ',' → 0 < depth
    · obtain ⟨first, rest, hparts⟩ := exists_splitAtDepth_eq_cons (depthBehind depth c) cs
      have hcs := ih (depthBehind depth c)
      rw [hparts] at hcs
      rw [splitAtDepth_cons h, hparts, consFirst, List.intercalate_cons_cons_left, hcs]
    · obtain ⟨rfl, rfl⟩ : c = ',' ∧ depth = 0 := by simpa using h
      rw [splitAtDepth_comma, List.intercalate_cons_of_ne_nil (splitAtDepth_ne_nil 0 cs), ih]
      rfl

theorem commasInside_of_splitAtDepth (h : splitAtDepth depth cs = first :: rest) :
    CommasInside depth first ∧ ∀ part ∈ rest, CommasInside 0 part := by
  induction cs generalizing depth first rest with
  | nil =>
    cases h
    exact ⟨commasInside_nil depth, fun _ hpart => nomatch hpart⟩
  | cons c cs ih =>
    by_cases hc : c = ',' → 0 < depth
    · obtain ⟨first', rest', hparts⟩ := exists_splitAtDepth_eq_cons (depthBehind depth c) cs
      rw [splitAtDepth_cons hc, hparts, consFirst] at h
      cases h
      obtain ⟨hfirst, hrest⟩ := ih hparts
      exact ⟨commasInside_cons_iff.2 ⟨hc, hfirst⟩, hrest⟩
    · -- a new part begins, at depth zero
      obtain ⟨rfl, rfl⟩ : c = ',' ∧ depth = 0 := by simpa using hc
      rw [splitAtDepth_comma] at h
      cases h
      obtain ⟨first', rest', hparts⟩ := exists_splitAtDepth_eq_cons 0 cs
      rw [hparts]
      exact ⟨commasInside_nil 0, List.forall_mem_cons.2 (ih hparts)⟩

theorem commasInside_of_mem_splitTopLevel (h : part ∈ splitTopLevel cs) : CommasInside 0 part := by
  obtain ⟨first, rest, hparts⟩ := exists_splitAtDepth_eq_cons 0 cs
  rw [splitTopLevel, hparts] at h
  exact List.forall_mem_cons.2 (commasInside_of_splitAtDepth hparts) part h

/-! ## Texts that are a part of their own -/

namespace CommasInside

theorem splitAtDepth_append (h : CommasInside depth cs) (rest : List Char) :
    splitAtDepth depth (cs ++ rest) =
      cs.foldr consFirst (splitAtDepth (bracketDepth depth cs) rest) := by
  induction cs generalizing depth with
  | nil => rfl
  | cons c cs ih =>
    obtain ⟨hc, hcs⟩ := commasInside_cons_iff.1 h
    rw [List.cons_append, splitAtDepth_cons hc, ih hcs]
    rfl

theorem splitTopLevel_eq (h : CommasInside 0 cs) : splitTopLevel cs = [cs] := by
  have hcs := h.splitAtDepth_append []
  rwa [List.append_nil, splitAtDepth, foldr_consFirst_nil_cons] at hcs

end CommasInside

theorem splitTopLevel_eq_singleton_iff : splitTopLevel cs = [cs] ↔ CommasInside 0 cs := by
  constructor
  · intro h
    have hmem : cs ∈ splitTopLevel cs := by
      rw [h]
      exact List.mem_singleton_self cs
    exact commasInside_of_mem_splitTopLevel hmem
  · intro h
    exact h.splitTopLevel_eq

/-- A text that can be an argument: its brackets are pairs, and no comma stands outside of them. -/
structure IsArgument (cs : List Char) : Prop where
  opened : ∀ before, before <+: cs → before.count '>' ≤ before.count '<'
  closed : cs.count '>' = cs.count '<'
  commas : ∀ before, before ++ [','] <+: cs → before.count '>' < before.count '<'

theorem isArgument_iff : IsArgument cs ↔
    (∀ before ∈ cs.inits, before.count '>' ≤ before.count '<') ∧
      cs.count '>' = cs.count '<' ∧
      ∀ before ∈ cs.inits, before ++ [','] <+: cs → before.count '>' < before.count '<' := by
  constructor
  · intro h
    exact ⟨fun before hbefore => h.opened before ((List.mem_inits _ _).1 hbefore), h.closed,
      fun before _ => h.commas before⟩
  · intro ⟨opened, closed, commas⟩
    refine ⟨fun before hbefore => opened before ((List.mem_inits _ _).2 hbefore), closed, ?_⟩
    intro before hbefore
    have hprefix : before <+: cs := (List.prefix_append before [',']).trans hbefore
    exact commas before ((List.mem_inits _ _).2 hprefix) hbefore

instance : Decidable (IsArgument cs) := decidable_of_iff _ isArgument_iff.symm

/-- Where no more is closed than was open, the depth counts the brackets. -/
theorem bracketDepth_add_count
    (h : ∀ before, before <+: cs → before.count '>' ≤ depth + before.count '<') :
    bracketDepth depth cs + cs.count '>' = depth + cs.count '<' := by
  induction cs generalizing depth with
  | nil => rfl
  | cons c cs ih =>
    have hfirst := h [c] (by simp)
    have hcs : bracketDepth (depthBehind depth c) cs + cs.count '>' =
        depthBehind depth c + cs.count '<' := by
      apply ih
      intro before hbefore
      have := h (c :: before) (List.cons_prefix_cons.2 ⟨rfl, hbefore⟩)
      grind [depthBehind]
    change bracketDepth (depthBehind depth c) cs + _ = _
    grind [depthBehind]

namespace IsArgument

theorem bracketDepth_add_count (h : IsArgument cs) (depth : Nat) {before : List Char}
    (hbefore : before <+: cs) :
    bracketDepth depth before + before.count '>' = depth + before.count '<' := by
  apply TypeRef.bracketDepth_add_count
  intro before' hbefore'
  have := h.opened before' (hbefore'.trans hbefore)
  omega

theorem commasInside (h : IsArgument cs) (depth : Nat) : CommasInside depth cs := by
  intro before hbefore
  have hcomma := h.commas before hbefore
  have hcount := h.bracketDepth_add_count depth ((List.prefix_append before [',']).trans hbefore)
  omega

theorem uncut (h : IsArgument cs) : Uncut 0 cs := by
  intro depth rest _
  have hdepth : bracketDepth depth cs = depth := by
    have hcount := h.bracketDepth_add_count depth (List.prefix_refl cs)
    have hclosed := h.closed
    omega
  rw [(h.commasInside depth).splitAtDepth_append, hdepth]

end IsArgument

/-- The parts of a text joined by commas are the text. In none of them does a comma stand at depth
zero by the part's own count, and the texts of which this holds are those that are a part by
themselves. Arguments joined by commas are the parts again; without any argument there is the one
empty part, and no part that is not blank. -/
theorem splitTopLevel_exact :
    (∀ cs, List.intercalate [','] (splitTopLevel cs) = cs ∧
      (∀ part ∈ splitTopLevel cs, CommasInside 0 part ∧ splitTopLevel part = [part]) ∧
      (splitTopLevel cs = [cs] ↔ CommasInside 0 cs)) ∧
    ∀ parts, (∀ part ∈ parts, IsArgument part) →
      splitTopLevel (List.intercalate [','] parts) = (if parts = [] then [[]] else parts) ∧
      (splitTopLevel (List.intercalate [','] parts)).filter (!·.all isBlank) =
        parts.filter (!·.all isBlank) := by
  refine ⟨fun cs => ⟨intercalate_splitAtDepth 0 cs, fun part hpart => ?_,
    splitTopLevel_eq_singleton_iff⟩, fun parts hparts => ?_⟩
  · have hinside := commasInside_of_mem_splitTopLevel hpart
    exact ⟨hinside, hinside.splitTopLevel_eq⟩
  · by_cases hne : parts = []
    · subst hne
      exact ⟨rfl, rfl⟩
    · have hsplit := splitTopLevel_intercalate hne fun part hpart => (hparts part hpart).uncut
      rw [if_neg hne, hsplit]
      exact ⟨rfl, rfl⟩

theorem strayBrackets_splitTopLevel_exact :
    "b<c,d".toList ∈ splitTopLevel ">a>,b<c,d".toList ∧ CommasInside 0 "b<c,d".toList ∧
      splitTopLevel "b<c,d".toList = ["b<c,d".toList] ∧
    (∀ part ∈ ["Map<K, V<W>>".toList, [], " x".toList], IsArgument part) ∧
      splitTopLevel "Map<K, V<W>>,, x".toList = ["Map<K, V<W>>".toList, [], " x".toList] := by
  have hpart : "b<c,d".toList ∈ splitTopLevel ">a>,b<c,d".toList := by decide
  have hparts : ∀ part ∈ ["Map<K, V<W>>".toList, [], " x".toList], IsArgument part := by
    decide +kernel
  obtain ⟨hany, hjoined⟩ := splitTopLevel_exact
  obtain ⟨hinside, hsplit⟩ := (hany _).2.1 _ hpart
  exact ⟨hpart, hinside, hsplit, hparts, (hjoined _ hparts).1⟩

end ApiModels.TypeRef
