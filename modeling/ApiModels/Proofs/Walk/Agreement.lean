import ApiModels.Proofs.Walk.Members

/-!
# Walks that agree

A walk looks at the types that it meets and at nothing else. So two walks that see the same of a set
of types, which is closed under what the declarations lead to, find the same models from every root
in the set, in the same order (`Walk.AgreeOn.models_eq`).
-/

namespace ApiModels

/-- Whether the subject comes from the catalog: a field or method of one of its declarations, or any
type, with one of its declarations or without any. -/
def Catalog.Shows (c : Catalog) : Subject → Prop
  | .type _ declaration => ∀ d, declaration = some d → d ∈ c.declarations
  | .field f => ∃ d ∈ c.declarations, f ∈ d.fields
  | .method g => ∃ d ∈ c.declarations, g ∈ d.methods

theorem Catalog.shows_type (c : Catalog) (t : TypeRef) : c.Shows (.type t (c.declaration? t)) :=
  fun _ hd => (declaration?_eq_some_iff.1 hd).1

namespace Walk

/-- The walk `w'` sees of the types of `P` what `w` sees, and the declarations of `w` lead to no
other types. -/
structure AgreeOn (w w' : Walk) (P : TypeRef → Prop) : Prop where
  declaration? : ∀ t, P t → w'.catalog.declaration? t = w.catalog.declaration? t
  isTerminal : ∀ t, P t → w'.policy.isTerminal w'.catalog t = w.policy.isTerminal w.catalog t
  typeName? : ∀ t, P t → w'.typeName? t = w.typeName? t
  candidates : ∀ d ∈ w.catalog.declarations, w'.candidates d = w.candidates d
  closed : ∀ d ∈ w.catalog.declarations, ∀ m ∈ w.candidates d, ∀ t ∈ m.types, P t

variable {w w' : Walk} {P : TypeRef → Prop} {root t : TypeRef} {ts : List TypeRef}
  {d : Declaration} {m : Member} {e : Expansion} {log : List Expansion} {models : ModelSet}

namespace AgreeOn

theorem members (h : w.AgreeOn w' P) (hd : d ∈ w.catalog.declarations) :
    w'.members d = w.members d := by
  rw [Walk.members, h.candidates d hd, Walk.members]

theorem of_mem_members (h : w.AgreeOn w' P) (hd : d ∈ w.catalog.declarations)
    (hm : m ∈ (w.members d).toList) (ht : t ∈ m.types) : P t :=
  h.closed d hd m (mem_candidates_of_mem_members hm) t ht

theorem next (h : w.AgreeOn w' P) (hd : d ∈ w.catalog.declarations) : w'.next d = w.next d := by
  rw [Walk.next, h.members hd, Walk.next]

theorem property (h : w.AgreeOn w' P) (hm : ∀ t ∈ m.types, P t) :
    w'.property m = w.property m := by
  have htype : P m.type := hm _ List.mem_cons_self
  have helement : m.type.element?.bind w'.typeName? = m.type.element?.bind w.typeName? := by
    cases ht : m.type.element? with
    | none => rfl
    | some t => exact h.typeName? t (hm t (by simp [Member.types, ht]))
  rw [Walk.property, h.declaration? _ htype, h.typeName? _ htype, helement, Walk.property]

theorem modelOf (h : w.AgreeOn w' P) (hd : e.declaration ∈ w.catalog.declarations) :
    w'.modelOf e = w.modelOf e := by
  have hproperties : (w'.modelOf e).properties = (w.modelOf e).properties := by
    refine KeyedList.ext ?_
    simp only [Walk.modelOf, model, h.members hd]
    refine List.map_congr_left fun m hm => ?_
    rw [h.property fun t => h.of_mem_members hd hm]
  rw [Walk.modelOf, model, Walk.modelOf, model, Model.mk.injEq]
  exact ⟨rfl, hproperties⟩

theorem expansion? (h : w.AgreeOn w' P) (ht : P t) : w'.expansion? t = w.expansion? t := by
  have hsubject : w'.subject? t = w.subject? t := by
    rw [subject?, h.isTerminal t ht, h.declaration? t ht, h.typeName? t ht, subject?]
  rw [Walk.expansion?, Walk.expansion?, hsubject]
  cases hs : w.subject? t with
  | none => rfl
  | some subject =>
    obtain ⟨-, hd, -⟩ := subject?_eq_some_iff.1 hs
    simp only [h.members (Catalog.declaration?_eq_some_iff.1 hd).1]

/-- What one walk registers the other registers too, with the same models. -/
theorem visits (h : w.AgreeOn w' P) (hvisits : w.Visits ts models log) (start : ∀ t ∈ ts, P t) :
    w'.Visits ts models log ∧ ∀ e ∈ log, w'.modelOf e = w.modelOf e := by
  induction hvisits with
  | nil => exact ⟨.nil, fun _ he => nomatch he⟩
  | @skip t ts models log hf _ ih =>
    obtain ⟨hvisits, hmodels⟩ := ih fun u hu => start u (List.mem_cons_of_mem _ hu)
    refine ⟨.skip ?_ hvisits, hmodels⟩
    rw [fresh?, h.expansion? (start t List.mem_cons_self)]
    exact hf
  | @enter t ts models e below after hf _ _ ih ih' =>
    obtain ⟨hd, -, -⟩ := expansion?_typeRef (fresh?_eq_some_iff.1 hf).1
    have hmodel := h.modelOf hd
    obtain ⟨hbelow, hmodels⟩ := ih fun u hu => by
      obtain ⟨m, hm, hu⟩ := List.mem_flatMap.1 hu
      exact h.of_mem_members hd hm hu
    obtain ⟨hafter, hmodels'⟩ := ih' fun u hu => start u (List.mem_cons_of_mem _ hu)
    have hrecord : w'.record models (e :: below) = w.record models (e :: below) := by
      rw [record, List.map_cons, hmodel, List.map_congr_left hmodels, record, List.map_cons]
    constructor
    · refine .enter ?_ ?_ (hrecord ▸ hafter)
      · rw [fresh?, h.expansion? (start t List.mem_cons_self)]
        exact hf
      · rw [h.next hd, hmodel]
        exact hbelow
    · intro f hmem
      rcases List.mem_cons.1 hmem with rfl | hmem
      · exact hmodel
      · exact (List.mem_append.1 hmem).elim (hmodels f) (hmodels' f)

/-- Walks that agree find the same models. -/
theorem models_eq (h : w.AgreeOn w' P) (hroot : P root) : w'.models root = w.models root := by
  obtain ⟨log, hlog, -, hlist⟩ := exists_log w root
  obtain ⟨log', hlog', -, hlist'⟩ := exists_log w' root
  obtain ⟨hvisits, hmodels⟩ := h.visits hlog (by simpa using hroot)
  refine KeyedList.ext ?_
  rw [hlist', hlist, hlog'.unique hvisits]
  exact List.map_congr_left hmodels

end AgreeOn

/-! ## Chains that agree -/

/-- A walk asks its chain about subjects of the catalog only. -/
theorem models_congr_chain {c : Catalog} {chain chain' : List Translator} (policy : Opacity)
    (root : TypeRef) (h : ∀ s, c.Shows s → firstOpinion chain' s = firstOpinion chain s) :
    Walk.models ⟨c, policy, chain'⟩ root = Walk.models ⟨c, policy, chain⟩ root := by
  have hname (t) : typeName? ⟨c, policy, chain'⟩ t = typeName? ⟨c, policy, chain⟩ t := by
    simp only [typeName?, h _ (c.shows_type t)]
  have hagree : AgreeOn ⟨c, policy, chain⟩ ⟨c, policy, chain'⟩ fun _ => True := by
    refine ⟨fun _ _ => rfl, fun _ _ => rfl, fun t _ => hname t, fun d hd => ?_,
      fun _ _ _ _ _ _ => trivial⟩
    refine candidates_congr rfl (fun a ha f hf => ?_) fun g hg => ?_
    · exact fieldMember?_congr (h _ ⟨a, Catalog.mem_of_mem_lineage hd ha, hf⟩) (hname f.type)
    · exact methodMember?_congr (h _ ⟨d, hd, hg⟩) (hname g.returns)
  exact hagree.models_eq trivial

end Walk

end ApiModels
