import Mathlib.Data.List.Basic
import ApiModels.Proofs.Lineage

/-!
# Candidates

The members that a type could document come from the fields of its lineage and from its methods; the
type of such a member is the one that the field is declared with or that the method returns.
-/

namespace ApiModels.Walk

variable {w w' : Walk} {t : TypeRef} {d : Declaration} {m : Member} {f : Field} {g : Method} {opinion : Opinion}
  {type : TypeRef} {description : String}

theorem member?_eq_some_iff : w.member? opinion type description = some m ↔
    opinion.name? = some m.name ∧ (∃ id, w.typeName? type = some id) ∧ m.type = type ∧
      m.description = description := by
  obtain ⟨name, type', description'⟩ := m
  simp only [member?, Option.bind_eq_bind, Option.bind_eq_some_iff, Option.pure_def,
    Option.some.injEq, Member.mk.injEq]
  constructor
  · rintro ⟨name, hname, id, hid, rfl, rfl, rfl⟩
    exact ⟨hname, ⟨id, hid⟩, rfl, rfl⟩
  · rintro ⟨hname, ⟨id, hid⟩, rfl, rfl⟩
    exact ⟨name, hname, id, hid, rfl, rfl, rfl⟩

theorem type_of_fieldMember? (h : w.fieldMember? f = some m) : m.type = f.type := by
  rw [fieldMember?] at h
  split at h
  · cases h
  · exact (member?_eq_some_iff.1 h).2.2.1

theorem type_of_methodMember? (h : w.methodMember? g = some m) : m.type = g.returns := by
  rw [methodMember?] at h
  split at h
  · cases h
  · exact (member?_eq_some_iff.1 h).2.2.1

theorem mem_candidates : m ∈ w.candidates d ↔
    (∃ a ∈ w.catalog.lineage d, ∃ f ∈ a.fields, w.fieldMember? f = some m) ∨
      ∃ g ∈ d.methods, w.methodMember? g = some m := by
  simp only [candidates, List.mem_append, List.mem_filterMap, List.mem_flatMap]
  refine or_congr_left ?_
  constructor
  · rintro ⟨f, ⟨a, ha, hf⟩, hm⟩
    exact ⟨a, ha, f, hf, hm⟩
  · rintro ⟨a, ha, f, hf, hm⟩
    exact ⟨f, ⟨a, ha, hf⟩, hm⟩

theorem mem_candidates_of_mem_members (h : m ∈ (w.members d).toList) : m ∈ w.candidates d :=
  List.mem_of_find?_eq_some (mem_members.1 h)

/-! ## Types with something to document -/

/-- Whether a declaration has a member to document: a field of its own or of an ancestor, or a
method of its own, that is not static, that the chain names and whose type the chain names. -/
def Shows (w : Walk) (d : Declaration) : Prop :=
  (∃ a ∈ w.catalog.lineage d, ∃ f ∈ a.fields, f.isStatic = false ∧
    (∃ name, firstOpinion w.chain (.field f) = .named name) ∧ ∃ id, w.typeName? f.type = some id) ∨
  ∃ g ∈ d.methods, g.isStatic = false ∧
    (∃ name, firstOpinion w.chain (.method g) = .named name) ∧ ∃ id, w.typeName? g.returns = some id

theorem exists_member?_iff : (∃ m, w.member? opinion type description = some m) ↔
    (∃ name, opinion = .named name) ∧ ∃ id, w.typeName? type = some id := by
  constructor
  · rintro ⟨m, hm⟩
    obtain ⟨hname, hid, -⟩ := member?_eq_some_iff.1 hm
    cases opinion with
    | named name => exact ⟨⟨name, rfl⟩, hid⟩
    | _ => cases hname
  · rintro ⟨⟨name, rfl⟩, hid⟩
    exact ⟨⟨name, type, description⟩, member?_eq_some_iff.2 ⟨rfl, hid, rfl, rfl⟩⟩

theorem exists_fieldMember?_iff : (∃ m, w.fieldMember? f = some m) ↔ f.isStatic = false ∧
    (∃ name, firstOpinion w.chain (.field f) = .named name) ∧
      ∃ id, w.typeName? f.type = some id := by
  rw [fieldMember?]
  cases f.isStatic with
  | true => simp
  | false => simpa using exists_member?_iff

theorem exists_methodMember?_iff : (∃ m, w.methodMember? g = some m) ↔ g.isStatic = false ∧
    (∃ name, firstOpinion w.chain (.method g) = .named name) ∧
      ∃ id, w.typeName? g.returns = some id := by
  rw [methodMember?]
  cases g.isStatic with
  | true => simp
  | false => simpa using exists_member?_iff

theorem exists_mem_candidates_iff : (∃ m, m ∈ w.candidates d) ↔ w.Shows d := by
  simp only [mem_candidates, Shows, ← exists_fieldMember?_iff, ← exists_methodMember?_iff]
  constructor
  · rintro ⟨m, ⟨a, ha, f, hf, hm⟩ | ⟨g, hg, hm⟩⟩
    · exact .inl ⟨a, ha, f, hf, m, hm⟩
    · exact .inr ⟨g, hg, m, hm⟩
  · rintro (⟨a, ha, f, hf, m, hm⟩ | ⟨g, hg, m, hm⟩)
    · exact ⟨m, .inl ⟨a, ha, f, hf, hm⟩⟩
    · exact ⟨m, .inr ⟨g, hg, hm⟩⟩

/-- Some candidate is kept if there are any. -/
theorem exists_keeps_iff (h : w.catalog.declaration? t = some d) :
    (∃ m, w.Keeps t m) ↔ w.Shows d := by
  rw [← exists_mem_candidates_iff]
  constructor
  · rintro ⟨m, hm⟩
    exact ⟨m, mem_candidates_of_mem_members ((keeps_iff h).1 hm)⟩
  · rintro ⟨m, hm⟩
    obtain ⟨k, hk⟩ : ∃ k, (w.candidates d).find? (·.name == m.name) = some k := by
      apply Option.isSome_iff_exists.1
      exact List.find?_isSome.2 ⟨m, hm, beq_self_eq_true _⟩
    have hname : k.name = m.name := by simpa using List.find?_some hk
    exact ⟨k, d, h, hname ▸ hk⟩

theorem expandable_iff (h : w.catalog.declaration? t = some d) : w.Expandable t ↔
    w.policy.isTerminal w.catalog t = false ∧ (∃ id, w.typeName? t = some id) ∧ w.Shows d := by
  rw [← exists_keeps_iff h]
  constructor
  · intro hx
    exact ⟨hx.isOpen, hx.named, hx.keeps⟩
  · rintro ⟨hopen, hnamed, hkeeps⟩
    exact ⟨hopen, hnamed, hkeeps⟩

/-! ## Members in two walks -/

theorem fieldMember?_congr
    (hopinion : firstOpinion w'.chain (.field f) = firstOpinion w.chain (.field f))
    (hname : w'.typeName? f.type = w.typeName? f.type) : w'.fieldMember? f = w.fieldMember? f := by
  simp only [fieldMember?, member?, hopinion, hname]

theorem methodMember?_congr
    (hopinion : firstOpinion w'.chain (.method g) = firstOpinion w.chain (.method g))
    (hname : w'.typeName? g.returns = w.typeName? g.returns) :
    w'.methodMember? g = w.methodMember? g := by
  simp only [methodMember?, member?, hopinion, hname]

theorem candidates_congr (lineage : w'.catalog.lineage d = w.catalog.lineage d)
    (fields : ∀ a ∈ w.catalog.lineage d, ∀ f ∈ a.fields, w'.fieldMember? f = w.fieldMember? f)
    (methods : ∀ g ∈ d.methods, w'.methodMember? g = w.methodMember? g) :
    w'.candidates d = w.candidates d := by
  rw [candidates, lineage, List.filterMap_congr methods, candidates]
  congr 1
  refine List.filterMap_congr fun f hf => ?_
  obtain ⟨a, ha, hf⟩ := List.mem_flatMap.1 hf
  exact fields a ha f hf

end ApiModels.Walk
