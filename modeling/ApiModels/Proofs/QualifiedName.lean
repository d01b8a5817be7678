import ApiModels.Proofs.KeyedList
import ApiModels.Proofs.Opacity
import ApiModels.Walk

/-!
# Look-ups go by the qualified name

The declaration of a type reference, whether the policy closes it and what a chain of translators
calls it depend on its qualified name alone: the type arguments are read by none of them. This is
what bounds a walk by the number of declarations although it meets arbitrarily many references.
-/

namespace ApiModels

variable {s t : TypeRef}

namespace Catalog

variable {c : Catalog} {d : Declaration}

theorem declaration?_congr (h : s.name = t.name) : c.declaration? s = c.declaration? t := by
  rw [declaration?, h, declaration?]

theorem declaration?_eq_some_iff :
    c.declaration? t = some d ↔ d ∈ c.declarations ∧ d.name = t.name :=
  KeyedList.find?_eq_some_iff

end Catalog

namespace Opacity

variable {policy : Opacity} {c : Catalog}

theorem isTerminal_congr (h : s.name = t.name) :
    policy.isTerminal c s = policy.isTerminal c t := by
  obtain ⟨n, as⟩ := s
  obtain ⟨m, bs⟩ := t
  obtain rfl : n = m := h
  rfl

/-- Undeclared types are closed. -/
theorem exists_declaration (h : policy.isTerminal c t = false) :
    ∃ d, c.declaration? t = some d :=
  (isTerminal_eq_false_iff.1 h).declared

end Opacity

mutual
theorem Translator.opinion_type_congr (h : s.name = t.name) (d : Option Declaration) :
    ∀ link : Translator, link.opinion (.type s d) = link.opinion (.type t d)
  | .declared => by
    simp only [Translator.opinion, Subject.declaredName, TypeRef.simpleName, h]
  | .table table => by
    simp only [Translator.opinion]
    cases d <;> rfl
  | .chain links => by
    simp only [Translator.opinion]
    exact firstOpinion_type_congr h d links

theorem firstOpinion_type_congr (h : s.name = t.name) (d : Option Declaration) :
    ∀ links : List Translator, firstOpinion links (.type s d) = firstOpinion links (.type t d)
  | [] => by simp only [firstOpinion]
  | link :: links => by
    simp only [firstOpinion, Translator.opinion_type_congr h d link,
      firstOpinion_type_congr h d links]
end

theorem Walk.typeName?_congr {w : Walk} (h : s.name = t.name) :
    w.typeName? s = w.typeName? t := by
  rw [typeName?, Catalog.declaration?_congr h, firstOpinion_type_congr h, typeName?]

end ApiModels
