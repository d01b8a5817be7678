import ApiModels.Naming

/-!
# Names that translators give

A name comes from an annotation or from what is declared, and both are asked for a text with
something in it. So no name is empty, whatever translators a chain is made of
(`ne_empty_of_firstOpinion`).
-/

namespace ApiModels

variable {s : Subject} {text : String}

theorem Opinion.ne_empty_of_ofText {text' : String} (h : ofText text' = .named text) :
    text ≠ "" := by
  rw [ofText] at h
  split at h
  · cases h
  · next hempty =>
    cases h
    rintro rfl
    exact hempty rfl

theorem Subject.ne_empty_of_declaredName (h : s.declaredName = .named text) : text ≠ "" := by
  cases s <;> exact Opinion.ne_empty_of_ofText h

namespace AnnotationTable

variable {table : AnnotationTable} {sources : List NameSource} {annotations : List Annotation}

theorem ne_empty_of_judge (h : table.judge sources annotations = .named text) : text ≠ "" := by
  rw [judge] at h
  split at h
  · cases h
  · split at h
    · next value hvalue =>
      cases h
      have husable := List.find?_some hvalue
      rintro rfl
      cases husable
    · cases h

theorem ne_empty_of_opinion (h : table.opinion s = .named text) : text ≠ "" := by
  match s with
  | .type _ none => cases h
  | .type _ (some _) | .field _ | .method _ => exact ne_empty_of_judge h

end AnnotationTable

theorem Opinion.orElse_eq_named {first second : Opinion} (h : first.orElse second = .named text) :
    first = .named text ∨ second = .named text := by
  cases first with
  | missing => exact .inr h
  | _ => exact .inl h

mutual
/-- No translator gives an empty name. -/
theorem Translator.ne_empty_of_opinion : ∀ t : Translator, t.opinion s = .named text → text ≠ ""
  | .declared, h => by
    rw [Translator.opinion] at h
    exact Subject.ne_empty_of_declaredName h
  | .table table, h => by
    rw [Translator.opinion] at h
    exact AnnotationTable.ne_empty_of_opinion h
  | .chain links, h => by
    rw [Translator.opinion] at h
    exact ne_empty_of_firstOpinion links h

/-- No chain gives an empty name, however deep it is. -/
theorem ne_empty_of_firstOpinion : ∀ links : List Translator,
    firstOpinion links s = .named text → text ≠ ""
  | [], h => by
    rw [firstOpinion] at h
    cases h
  | link :: links, h => by
    rw [firstOpinion] at h
    rcases Opinion.orElse_eq_named h with h | h
    · exact Translator.ne_empty_of_opinion link h
    · exact ne_empty_of_firstOpinion links h
end

end ApiModels
