import ApiModels.Naming

/-!
# Chains of chains

A chain may have chains among its links, to any depth. What matters of it are the translators that
are no chains, from left to right (`Nested.leaves`): the first opinion among these is its answer
(`Nested.opinion_eq_first`), however the links are grouped and wherever chains without links stand.
This holds of leaves that answer in any way; the translators of this library are a case of it
(`Translator.opinion_nested`).
-/

namespace ApiModels

universe u

namespace Opinion

variable {o p q : Opinion}

@[simp] theorem missing_orElse : missing.orElse o = o := rfl

@[simp] theorem orElse_missing : o.orElse missing = o := by cases o <;> rfl

theorem orElse_of_ne_missing (h : o ≠ missing) : o.orElse p = o := by
  cases o with
  | missing => exact (h rfl).elim
  | named _ | ignored => rfl

theorem orElse_assoc : (o.orElse p).orElse q = o.orElse (p.orElse q) := by
  cases o <;> rfl

/-- The first of several opinions. -/
def first : List Opinion → Opinion := List.foldr orElse missing

@[simp] theorem first_nil : first [] = missing := rfl

@[simp] theorem first_cons (os : List Opinion) : first (o :: os) = o.orElse (first os) := rfl

theorem first_append (os ps : List Opinion) : first (os ++ ps) = (first os).orElse (first ps) := by
  induction os with
  | nil => rfl
  | cons o os ih => rw [List.cons_append, first_cons, first_cons, ih, orElse_assoc]

theorem first_append_of_missing {os : List Opinion} (h : ∀ o ∈ os, o = missing) (ps : List Opinion) :
    first (os ++ ps) = first ps := by
  induction os with
  | nil => rfl
  | cons o os ih =>
    rw [List.cons_append, first_cons, h o List.mem_cons_self, missing_orElse,
      ih fun o ho => h o (List.mem_cons_of_mem _ ho)]

/-- Behind an opinion there is nothing to hear. -/
theorem first_append_cons (os ps : List Opinion) (h : o ≠ missing) :
    first (os ++ o :: ps) = first (os ++ [o]) := by
  rw [first_append, first_append, first_cons, first_cons, orElse_of_ne_missing h,
    orElse_of_ne_missing h]

end Opinion

/-- Chains, nested to any depth, of translators of some kind. -/
inductive Nested (L : Type u) where
  /-- A translator that is no chain. -/
  | leaf (l : L)
  /-- A chain of translators, each of which may be a chain itself. -/
  | chain (links : List (Nested L))

namespace Nested

variable {L : Type u} {ask : L → Subject → Opinion} {s : Subject} {t t' : Nested L}

mutual
/-- What a nested chain says about a subject, if `ask` tells what its leaves say. -/
def opinion (ask : L → Subject → Opinion) : Nested L → Subject → Opinion
  | .leaf l, s => ask l s
  | .chain links, s => firstOpinion ask links s

/-- The first opinion among several nested chains. -/
def firstOpinion (ask : L → Subject → Opinion) : List (Nested L) → Subject → Opinion
  | [], _ => .missing
  | link :: links, s => (link.opinion ask s).orElse (firstOpinion ask links s)
end

mutual
/-- The translators that are no chains, from left to right. -/
def leaves : Nested L → List L
  | .leaf l => [l]
  | .chain links => leavesOf links

/-- The leaves of several nested chains. -/
def leavesOf : List (Nested L) → List L
  | [] => []
  | link :: links => link.leaves ++ leavesOf links
end

/-- The chain of these leaves, without any chain in it. -/
def flat (ls : List L) : Nested L := chain (ls.map leaf)

/-- The chain of two links. -/
def andThen (t t' : Nested L) : Nested L := chain [t, t']

theorem leaves_flat (ls : List L) : (flat ls).leaves = ls := by
  rw [flat, leaves]
  induction ls with
  | nil => rfl
  | cons l ls ih => rw [List.map_cons, leavesOf, ih, leaves, List.singleton_append]

theorem leaves_andThen : (t.andThen t').leaves = t.leaves ++ t'.leaves := by
  simp only [andThen, leaves, leavesOf, List.append_nil]

mutual
theorem opinion_eq_first (ask : L → Subject → Opinion) (s : Subject) :
    ∀ t : Nested L, t.opinion ask s = .first (t.leaves.map (ask · s))
  | .leaf l => by simp [opinion, leaves]
  | .chain links => by
    rw [opinion, leaves]
    exact firstOpinion_eq_first ask s links

theorem firstOpinion_eq_first (ask : L → Subject → Opinion) (s : Subject) :
    ∀ links : List (Nested L), firstOpinion ask links s = .first ((leavesOf links).map (ask · s))
  | [] => by rw [firstOpinion, leavesOf]; rfl
  | link :: links => by
    rw [firstOpinion, leavesOf, List.map_append, Opinion.first_append, opinion_eq_first ask s link,
      firstOpinion_eq_first ask s links]
end

/-- Chains with the same leaves in the same order say the same. -/
theorem opinion_congr (h : t.leaves = t'.leaves) : t.opinion ask s = t'.opinion ask s := by
  rw [opinion_eq_first, opinion_eq_first, h]

end Nested

/-! ## The translators of this library -/

namespace Translator

mutual
/-- The chains in a translator, with its translators that are no chains as leaves. -/
def nested : Translator → Nested Translator
  | .declared => .leaf .declared
  | .table rows => .leaf (.table rows)
  | .chain links => .chain (nestedOf links)

/-- The chains in several translators. -/
def nestedOf : List Translator → List (Nested Translator)
  | [] => []
  | link :: links => link.nested :: nestedOf links
end

mutual
theorem opinion_nested (s : Subject) :
    ∀ t : Translator, t.nested.opinion Translator.opinion s = t.opinion s
  | .declared => by rw [nested, Nested.opinion]
  | .table rows => by rw [nested, Nested.opinion]
  | .chain links => by
    rw [nested, Nested.opinion, Translator.opinion]
    exact firstOpinion_nestedOf s links

theorem firstOpinion_nestedOf (s : Subject) : ∀ links : List Translator,
    Nested.firstOpinion Translator.opinion (nestedOf links) s = firstOpinion links s
  | [] => by rw [nestedOf, Nested.firstOpinion, firstOpinion]
  | link :: links => by
    rw [nestedOf, Nested.firstOpinion, firstOpinion, opinion_nested s link,
      firstOpinion_nestedOf s links]
end

/-- The flat chain of translators says what the chain of them as leaves says. -/
theorem opinion_flat (s : Subject) (ts : List Translator) :
    (Nested.flat ts).opinion Translator.opinion s = ApiModels.firstOpinion ts s := by
  rw [Nested.flat, Nested.opinion]
  induction ts with
  | nil => rw [List.map_nil, Nested.firstOpinion, ApiModels.firstOpinion]
  | cons t ts ih =>
    rw [List.map_cons, Nested.firstOpinion, ApiModels.firstOpinion, Nested.opinion, ih]

mutual
theorem chain_not_mem_leaves (links : List Translator) :
    ∀ t : Translator, .chain links ∉ t.nested.leaves
  | .declared => by simp [nested, Nested.leaves]
  | .table rows => by simp [nested, Nested.leaves]
  | .chain inner => by
    rw [nested, Nested.leaves]
    exact chain_not_mem_leavesOf links inner

theorem chain_not_mem_leavesOf (links : List Translator) :
    ∀ ts : List Translator, .chain links ∉ Nested.leavesOf (nestedOf ts)
  | [] => by simp [nestedOf, Nested.leavesOf]
  | t :: ts => by
    rw [nestedOf, Nested.leavesOf, List.mem_append, not_or]
    exact ⟨chain_not_mem_leaves links t, chain_not_mem_leavesOf links ts⟩
end

end Translator

/-! ## How chains answer -/

namespace Nested

variable {L : Type u}

/-- A nested chain answers as the flat chain of its leaves does. So chaining is associative, the chain
without links is its unit, and a leaf that has an opinion hides all leaves to its right: where none to
its left has one, the opinion is the answer. The translators of this library are such chains. -/
theorem nested_opinion (ask : L → Subject → Opinion) (s : Subject) :
    (∀ t : Nested L, t.opinion ask s = (flat t.leaves).opinion ask s) ∧
    (∀ t t' t'' : Nested L, ((t.andThen t').andThen t'').opinion ask s =
      (t.andThen (t'.andThen t'')).opinion ask s) ∧
    (∀ t : Nested L, ((chain []).andThen t).opinion ask s = t.opinion ask s ∧
      (t.andThen (chain [])).opinion ask s = t.opinion ask s) ∧
    (∀ (t : Nested L) (before : List L) (l : L) (after : List L), t.leaves = before ++ l :: after →
      ask l s ≠ .missing →
        t.opinion ask s = (flat (before ++ [l])).opinion ask s ∧
        ((∀ b ∈ before, ask b s = .missing) → t.opinion ask s = ask l s)) ∧
    ∀ t : Translator, t.nested.opinion Translator.opinion s = t.opinion s ∧
      t.opinion s = ApiModels.firstOpinion t.nested.leaves s ∧
      ∀ links, .chain links ∉ t.nested.leaves := by
  refine ⟨fun t => ?_, fun t t' t'' => ?_, fun t => ⟨?_, ?_⟩, fun t before l after hleaves hl => ⟨?_, ?_⟩,
    fun t => ⟨t.opinion_nested s, ?_, fun links => t.chain_not_mem_leaves links⟩⟩
  · exact opinion_congr (leaves_flat _).symm
  · apply opinion_congr
    simp only [leaves_andThen, List.append_assoc]
  · apply opinion_congr
    rw [leaves_andThen, leaves, leavesOf, List.nil_append]
  · apply opinion_congr
    rw [leaves_andThen, leaves, leavesOf, List.append_nil]
  · rw [opinion_eq_first, opinion_eq_first, leaves_flat, hleaves, List.map_append, List.map_append]
    exact Opinion.first_append_cons _ _ hl
  · intro hbefore
    have hmissing : ∀ o ∈ before.map (ask · s), o = .missing := by
      simpa using hbefore
    rw [opinion_eq_first, hleaves, List.map_append, Opinion.first_append_of_missing hmissing,
      List.map_cons, Opinion.first_cons, Opinion.orElse_of_ne_missing hl]
  · rw [← t.opinion_nested s, ← Translator.opinion_flat]
    exact opinion_congr (leaves_flat _).symm

/-- Opinions as leaves that are always given: among chains without any opinion the first one is to
leave out, and it is further inside than the name behind it. -/
def layered : Nested Opinion :=
  .chain [.chain [], .chain [.leaf .missing, .chain [.leaf .ignored, .chain []]], .leaf (.named "total")]

theorem layered_nested_opinion :
    layered.leaves = [.missing] ++ .ignored :: [.named "total"] ∧
    layered.opinion (fun o _ => o) (.field { name := "total", type := ⟨"int", []⟩ }) = .ignored := by
  obtain ⟨-, -, -, hides, -⟩ :=
    nested_opinion (fun (o : Opinion) _ => o) (.field { name := "total", type := ⟨"int", []⟩ })
  have hleaves : layered.leaves = [.missing] ++ .ignored :: [.named "total"] := by decide +kernel
  obtain ⟨-, hanswer⟩ := hides layered _ _ _ hleaves nofun
  exact ⟨hleaves, hanswer (by decide)⟩

end Nested

end ApiModels
