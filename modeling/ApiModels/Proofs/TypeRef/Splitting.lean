import Mathlib.Data.List.Basic
import ApiModels.TypeRef.Parse

/-!
# Texts that are not cut

`TypeRef.splitAtDepth` cuts at a comma only at bracket depth zero. A text is `Uncut` above a depth if
no cut falls into it from there and its brackets bring the depth back. Uncut texts are closed under
joining, and brackets around a text lower the depth above which it is uncut; so a list of texts that
are uncut everywhere is got back from the texts joined by commas
(`TypeRef.splitTopLevel_intercalate`).
-/

namespace ApiModels.TypeRef

/-- Whether no cut falls into `cs` from any depth of at least `least`, whatever follows. -/
def Uncut (least : Nat) (cs : List Char) : Prop :=
  ∀ depth rest, least ≤ depth →
    splitAtDepth depth (cs ++ rest) = cs.foldr consFirst (splitAtDepth depth rest)

variable {cs ds : List Char} {c : Char} {least depth : Nat} {part : List Char}
  {parts : List (List Char)}

theorem foldr_consFirst_nil_cons (cs : List Char) (parts : List (List Char)) :
    cs.foldr consFirst ([] :: parts) = cs :: parts := by
  induction cs with
  | nil => rfl
  | cons c cs ih => rw [List.foldr_cons, ih, consFirst]

theorem splitAtDepth_comma (cs : List Char) : splitAtDepth 0 (',' :: cs) = [] :: splitAtDepth 0 cs := by
  simp [splitAtDepth]

namespace Uncut

theorem nil : Uncut least [] := by
  intro depth rest _
  rfl

theorem mono {more : Nat} (h : Uncut least cs) (hle : least ≤ more) : Uncut more cs := by
  intro depth rest hdepth
  exact h depth rest (Nat.le_trans hle hdepth)

theorem append (hcs : Uncut least cs) (hds : Uncut least ds) : Uncut least (cs ++ ds) := by
  intro depth rest hdepth
  rw [List.append_assoc, hcs depth _ hdepth, hds depth rest hdepth, List.foldr_append]

/-- Above depth zero every character that is no bracket is passed over. -/
theorem singleton (hopen : c ≠ '<') (hclose : c ≠ '>') (hcomma : c = ',' → 0 < least) :
    Uncut least [c] := by
  intro depth rest hdepth
  have hcut : ¬(c = ',' ∧ depth = 0) := by
    rintro ⟨rfl, rfl⟩
    have := hcomma rfl
    omega
  rw [List.singleton_append, splitAtDepth, if_neg hopen, if_neg hclose, if_neg hcut]
  rfl

theorem of_forall (h : ∀ c ∈ cs, c ≠ '<' ∧ c ≠ '>' ∧ c ≠ ',') : Uncut least cs := by
  induction cs with
  | nil => exact nil
  | cons c cs ih =>
    obtain ⟨hopen, hclose, hcomma⟩ := h c List.mem_cons_self
    have hfirst : Uncut least [c] := singleton hopen hclose fun heq => absurd heq hcomma
    exact hfirst.append (ih fun d hd => h d (List.mem_cons_of_mem c hd))

theorem bracketed (h : Uncut (least + 1) cs) : Uncut least ('<' :: (cs ++ ['>'])) := by
  intro depth rest hdepth
  have hinner := h (depth + 1) ('>' :: rest) (Nat.succ_le_succ hdepth)
  calc splitAtDepth depth ('<' :: (cs ++ ['>']) ++ rest)
      = consFirst '<' (splitAtDepth (depth + 1) (cs ++ '>' :: rest)) := by
        simp [splitAtDepth]
    _ = consFirst '<' (cs.foldr consFirst (consFirst '>' (splitAtDepth depth rest))) := by
        rw [hinner]
        simp [splitAtDepth]
    _ = ('<' :: (cs ++ ['>'])).foldr consFirst (splitAtDepth depth rest) := by
        simp [List.foldr_append]

/-- Parts that are uncut everywhere are uncut above depth zero when commas join them. -/
theorem intercalate (h : ∀ part ∈ parts, Uncut 0 part) :
    Uncut 1 (List.intercalate [','] parts) := by
  induction parts with
  | nil => exact nil
  | cons part parts ih =>
    have hpart : Uncut 1 part := (h part List.mem_cons_self).mono (Nat.zero_le 1)
    have hparts := ih fun p hp => h p (List.mem_cons_of_mem part hp)
    cases parts with
    | nil => rwa [List.intercalate_singleton]
    | cons next parts =>
      rw [List.intercalate_cons_cons]
      have hcomma : Uncut 1 [','] := singleton (by decide) (by decide) fun _ => Nat.one_pos
      exact (hpart.append hcomma).append hparts

/-- An uncut text ends at a comma that follows it. -/
theorem splitAtDepth_append_comma (h : Uncut 0 cs) (rest : List Char) :
    splitAtDepth 0 (cs ++ ',' :: rest) = cs :: splitAtDepth 0 rest := by
  rw [h 0 _ (Nat.le_refl 0), splitAtDepth_comma, foldr_consFirst_nil_cons]

theorem splitAtDepth_eq (h : Uncut 0 cs) : splitAtDepth 0 cs = [cs] := by
  have hall := h 0 [] (Nat.le_refl 0)
  rwa [List.append_nil, splitAtDepth, foldr_consFirst_nil_cons] at hall

end Uncut

/-- Uncut texts joined by commas are cut at those commas and nowhere else. -/
theorem splitTopLevel_intercalate (hne : parts ≠ []) (h : ∀ part ∈ parts, Uncut 0 part) :
    splitTopLevel (List.intercalate [','] parts) = parts := by
  rw [splitTopLevel]
  induction parts with
  | nil => exact absurd rfl hne
  | cons part parts ih =>
    have hpart := h part List.mem_cons_self
    cases parts with
    | nil => rw [List.intercalate_singleton, hpart.splitAtDepth_eq]
    | cons next parts =>
      have hrest := ih (List.cons_ne_nil _ _) fun p hp => h p (List.mem_cons_of_mem part hp)
      rw [List.intercalate_cons_cons, List.append_assoc, List.singleton_append,
        hpart.splitAtDepth_append_comma, hrest]

end ApiModels.TypeRef
