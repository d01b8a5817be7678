import ApiModels.Proofs.Yaml.Block
import ApiModels.Proofs.Yaml.DoubleQuoted
import ApiModels.Proofs.Yaml.Plain
import ApiModels.Proofs.Yaml.SingleQuoted

/-!
# The style of a text

The style that a text is written in is one that can hold it (`Style.holds_ofText`): no style but the
double-quoted one holds special characters, only a literal scalar holds line feeds, and a plain
scalar is taken for nothing but its text.
-/

namespace ApiModels.Yaml

variable {c : Char} {cs as bs : List Char} {text : String}

/-- A text that a plain scalar can begin with. -/
structure PlainFirst (cs : List Char) : Prop where
  notIndicator : Begins (indicators.contains · = false) cs
  inWord : ∀ c rest, cs = c :: rest → c = '-' ∨ c = '?' ∨ c = ':' → endsWord rest = false
  noDashes : (List.replicate 3 '-').isPrefixOf cs = false
  noDots : (List.replicate 3 '.').isPrefixOf cs = false

/-- What a style asks of the text that it holds. -/
inductive Style.Holds (text : String) : Style → Prop where
  | plain : text.toList ≠ [] → hasMeaning text = false → PlainFirst text.toList →
    PlainSafe text.toList → Holds text .plain
  | singleQuoted : SingleSafe text.toList → Holds text .singleQuoted
  | doubleQuoted : Holds text .doubleQuoted
  | literal : text.toList ≠ [] → '\n' ∈ text.toList → Clean text.toList → Holds text .literal

theorem holdsIndicator_append (h : holdsIndicator (as ++ bs) = false) :
    holdsIndicator bs = false := by
  induction as with
  | nil => exact h
  | cons a as ih =>
    refine ih ?_
    rw [List.cons_append] at h
    cases hcs : as ++ bs with
    | nil => rfl
    | cons b cs =>
      rw [hcs, holdsIndicator] at h
      exact (Bool.or_eq_false_iff.1 h).2

theorem plainFirst_of_isPlainSafe (hne : cs ≠ []) (h : isPlainSafe cs = true) : PlainFirst cs := by
  simp only [isPlainSafe, Bool.not_eq_true', Bool.or_eq_false_iff] at h
  obtain ⟨⟨⟨⟨hopens, -⟩, -⟩, -⟩, -⟩ := h
  obtain ⟨c, cs, rfl⟩ := List.exists_cons_of_ne_nil hne
  simp only [opensLikeIndicator, Bool.or_eq_false_iff] at hopens
  obtain ⟨⟨⟨hindicator, hword⟩, hdashes⟩, hdots⟩ := hopens
  refine ⟨.of_cons hindicator, ?_, hdashes, hdots⟩
  rintro _ _ ⟨⟩ hc
  simpa [or_assoc, hc] using hword

theorem plainSafe_of_isPlainSafe (hclean : Clean cs) (hne : cs ≠ []) (h : isPlainSafe cs = true) :
    PlainSafe cs := by
  have hopens := plainFirst_of_isPlainSafe hne h
  simp only [isPlainSafe, Bool.not_eq_true', Bool.or_eq_false_iff] at h
  obtain ⟨⟨⟨⟨-, hholds⟩, hfirst⟩, hlast⟩, hbreak⟩ := h
  exact {
    clean := hclean
    oneLine := fun c hc => Bool.eq_false_iff.2 (List.any_eq_false.1 hbreak c hc)
    first := by
      intro c hc
      constructor
      · rintro rfl
        rw [Option.mem_def.1 hc] at hfirst
        cases hfirst
      · rintro rfl
        have := hopens.notIndicator _ hc
        cases this
    last := by
      rintro c hc rfl
      rw [Option.mem_def.1 hc] at hlast
      cases hlast
    noValue := by
      intro as bs hcs
      rcases List.eq_nil_or_concat as with rfl | ⟨init, a, rfl⟩
      · exact hopens.inWord ':' bs hcs (.inr (.inr rfl))
      · rw [hcs, List.concat_eq_append, List.append_assoc] at hholds
        have := holdsIndicator_append hholds
        simp only [List.singleton_append, holdsIndicator, Bool.or_eq_false_iff] at this
        simpa using this.1.1
    noComment := by
      rintro as bs rfl
      have := holdsIndicator_append hholds
      simp [holdsIndicator, endsWord] at this }

/-- Each text can be held by its style. -/
theorem Style.holds_ofText (text : String) : (Style.ofText text).Holds text := by
  rw [ofText]
  split_ifs with hspecial hfeed hspaces hspaces hquoted
  · exact .doubleQuoted
  · exact .doubleQuoted
  all_goals
    have hclean : Clean text.toList := by
      simpa [Clean] using mt List.any_eq_true.2 hspecial
  · have hmem : '\n' ∈ text.toList := by simpa using hfeed
    exact .literal (List.ne_nil_of_mem hmem) hmem hclean
  · exact .doubleQuoted
  all_goals
    have hspaces := Bool.or_eq_false_iff.1 (Bool.eq_false_iff.2 hspaces)
  · exact .singleQuoted ⟨hclean, by simpa using hfeed, hspaces.1, hspaces.2⟩
  · obtain ⟨hmeaning, hsafe⟩ := Bool.or_eq_false_iff.1 (Bool.eq_false_iff.2 hquoted)
    have hsafe : isPlainSafe text.toList = true := by simpa using hsafe
    have hne : text.toList ≠ [] := by
      intro hnil
      simp [hasMeaning, hnil] at hmeaning
    exact .plain hne hmeaning (plainFirst_of_isPlainSafe hne hsafe)
      (plainSafe_of_isPlainSafe hclean hne hsafe)

end ApiModels.Yaml
