import ApiModels.Proofs.QualifiedName

/-!
# Types that get a model

`Expandable` says which types a walk documents, in terms of policy, names and kept members. One that
is expandable has an `Expansion`: its declaration and the id of its model, on which the model
(`Walk.modelOf`) depends alone. `Walk.fresh?` is the test that a visit makes, and `Walk.visit?_succ`
says what the visit does by it.
-/

namespace ApiModels

/-- The declaration that a model documents, with the id of the model. -/
structure Expansion where
  declaration : Declaration
  id : String
deriving DecidableEq, Repr

namespace Walk

variable {w : Walk} {s t u : TypeRef} {d : Declaration} {m : Member} {e f : Expansion}
  {models : ModelSet}

/-- Whether `m` is a kept member of the type `t`: the first one of its name among the fields of the
type, those of its ancestors and the methods of the type that have a name and a nameable type. -/
def Keeps (w : Walk) (t : TypeRef) (m : Member) : Prop :=
  ∃ d, w.catalog.declaration? t = some d ∧ (w.candidates d).find? (·.name == m.name) = some m

/-- A type that gets a model: the policy leaves it open, the chain names it, and it keeps a
member. -/
structure Expandable (w : Walk) (t : TypeRef) : Prop where
  isOpen : w.policy.isTerminal w.catalog t = false
  named : ∃ id, w.typeName? t = some id
  keeps : ∃ m, w.Keeps t m

/-- The expansion of an expandable type. -/
def expansion? (w : Walk) (t : TypeRef) : Option Expansion :=
  match w.subject? t with
  | none => none
  | some (d, id) => if (w.members d).isEmpty then none else some ⟨d, id⟩

/-- The model that a visit registers. -/
def modelOf (w : Walk) (e : Expansion) : Model := w.model e.id e.declaration

@[simp] theorem modelOf_id : (w.modelOf e).id = e.id := rfl

/-- The expansion of a type whose id is free. -/
def fresh? (w : Walk) (t : TypeRef) (models : ModelSet) : Option Expansion :=
  (w.expansion? t).filter fun e => !models.contains e.id

/-! ## Kept members -/

instance : Decidable (w.Keeps t m) :=
  inferInstanceAs (Decidable (∃ d ∈ w.catalog.declaration? t, _ = some m))

theorem mem_members :
    m ∈ (w.members d).toList ↔ (w.candidates d).find? (·.name == m.name) = some m :=
  KeyedList.mem_ofList

theorem keeps_iff (h : w.catalog.declaration? t = some d) :
    w.Keeps t m ↔ m ∈ (w.members d).toList := by
  rw [mem_members]
  constructor
  · rintro ⟨d', hd', hm⟩
    cases h.symm.trans hd'
    exact hm
  · exact fun hm => ⟨d, h, hm⟩

/-- The types that a declaration leads to are those of its kept members. -/
theorem mem_next (h : w.catalog.declaration? t = some d) :
    u ∈ w.next d ↔ ∃ m, w.Keeps t m ∧ u ∈ m.types := by
  simp only [next, List.mem_flatMap, keeps_iff h]

/-- A kept member is documented under its name. -/
theorem mem_properties (h : m ∈ (w.members e.declaration).toList) :
    (m.name, w.property m) ∈ (w.modelOf e).properties.toList :=
  List.mem_map.2 ⟨m, h, rfl⟩

/-! ## Expansions -/

theorem subject?_eq_some_iff {id : String} : w.subject? t = some (d, id) ↔
    w.policy.isTerminal w.catalog t = false ∧ w.catalog.declaration? t = some d ∧
      w.typeName? t = some id := by
  unfold subject?
  split
  · simp_all
  · simp_all [Option.bind_eq_some_iff]

theorem expansion?_eq_some_iff : w.expansion? t = some e ↔
    w.Expandable t ∧ w.catalog.declaration? t = some e.declaration ∧ w.typeName? t = some e.id := by
  obtain ⟨d, id⟩ := e
  have hempty : (w.members d).isEmpty = false ↔ ∃ m, m ∈ (w.members d).toList := by
    rw [KeyedList.isEmpty, List.isEmpty_eq_false_iff_exists_mem]
  constructor
  · intro h
    unfold expansion? at h
    split at h
    · cases h
    · rename_i d' id' hs
      split at h
      · cases h
      · rename_i hm
        cases h
        obtain ⟨hopen, hd, hid⟩ := subject?_eq_some_iff.1 hs
        obtain ⟨m, hm⟩ := hempty.1 (by simpa using hm)
        exact ⟨⟨hopen, ⟨id, hid⟩, ⟨m, (keeps_iff hd).2 hm⟩⟩, hd, hid⟩
  · rintro ⟨⟨hopen, -, m, hm⟩, hd, hid⟩
    have hs := subject?_eq_some_iff.2 ⟨hopen, hd, hid⟩
    have hm := hempty.2 ⟨m, (keeps_iff hd).1 hm⟩
    simp [expansion?, hs, hm]

theorem Expandable.exists_expansion (h : w.Expandable t) : ∃ e, w.expansion? t = some e := by
  obtain ⟨d, hd⟩ := Opacity.exists_declaration h.isOpen
  obtain ⟨id, hid⟩ := h.named
  exact ⟨⟨d, id⟩, expansion?_eq_some_iff.2 ⟨h, hd, hid⟩⟩

instance : Decidable (w.Expandable t) :=
  decidable_of_iff ((w.expansion? t).isSome = true) <| by
    rw [Option.isSome_iff_exists]
    exact ⟨fun ⟨_, he⟩ => (expansion?_eq_some_iff.1 he).1, Expandable.exists_expansion⟩

theorem expansion?_congr (h : s.name = t.name) : w.expansion? s = w.expansion? t := by
  rw [expansion?, subject?, Opacity.isTerminal_congr h, Catalog.declaration?_congr h,
    typeName?_congr h, expansion?, subject?]

theorem expansion?_inj (he : w.expansion? s = some e) (hf : w.expansion? t = some f)
    (h : s.name = t.name) : e = f :=
  Option.some.inj (he.symm.trans ((expansion?_congr h).trans hf))

/-- The declared type of an expansion has the same expansion. -/
theorem expansion?_typeRef (h : w.expansion? t = some e) :
    e.declaration ∈ w.catalog.declarations ∧ e.declaration.name = t.name ∧
      w.expansion? e.declaration.typeRef = some e := by
  obtain ⟨-, hd, -⟩ := expansion?_eq_some_iff.1 h
  obtain ⟨hmem, hname⟩ := Catalog.declaration?_eq_some_iff.1 hd
  exact ⟨hmem, hname, h ▸ expansion?_congr hname⟩

/-! ## Names that tell types apart -/

/-- Whether types that the policy leaves open have different names if they have different qualified
names. -/
def NamesApart (w : Walk) : Prop := ∀ s t id,
  w.policy.isTerminal w.catalog s = false → w.policy.isTerminal w.catalog t = false →
    w.typeName? s = some id → w.typeName? t = some id → s.name = t.name

theorem NamesApart.eq_of_id (apart : w.NamesApart) (he : w.expansion? s = some e)
    (hf : w.expansion? t = some f) (hid : e.id = f.id) : e = f := by
  obtain ⟨hs, -, hids⟩ := expansion?_eq_some_iff.1 he
  obtain ⟨ht, -, hidt⟩ := expansion?_eq_some_iff.1 hf
  exact expansion?_inj he hf (apart s t e.id hs.isOpen ht.isOpen hids (hid ▸ hidt))

/-- It is enough to compare the declared types. -/
theorem namesApart_iff : w.NamesApart ↔
    ∀ d ∈ w.catalog.declarations, ∀ d' ∈ w.catalog.declarations,
      w.policy.isTerminal w.catalog d.typeRef = false →
      w.policy.isTerminal w.catalog d'.typeRef = false →
      (w.typeName? d.typeRef).isSome = true → w.typeName? d.typeRef = w.typeName? d'.typeRef →
      d.name = d'.name := by
  constructor
  · intro apart d _ d' _ hd hd' hsome heq
    obtain ⟨id, hid⟩ := Option.isSome_iff_exists.1 hsome
    exact apart d.typeRef d'.typeRef id hd hd' hid (heq ▸ hid)
  · intro h s t id hs ht hids hidt
    obtain ⟨d, hd⟩ := Opacity.exists_declaration hs
    obtain ⟨d', hd'⟩ := Opacity.exists_declaration ht
    obtain ⟨hd, hname⟩ := Catalog.declaration?_eq_some_iff.1 hd
    obtain ⟨hd', hname'⟩ := Catalog.declaration?_eq_some_iff.1 hd'
    have hids : w.typeName? d.typeRef = some id := (typeName?_congr hname).trans hids
    have hidt : w.typeName? d'.typeRef = some id := (typeName?_congr hname').trans hidt
    rw [← hname, ← hname']
    refine h d hd d' hd' ((Opacity.isTerminal_congr hname).trans hs)
      ((Opacity.isTerminal_congr hname').trans ht) ?_ (hids.trans hidt.symm)
    rw [hids]
    rfl

instance : Decidable w.NamesApart := decidable_of_iff _ namesApart_iff.symm

/-! ## Visits -/

theorem fresh?_eq_some_iff :
    w.fresh? t models = some e ↔ w.expansion? t = some e ∧ e.id ∉ models.keys := by
  simp [fresh?, Option.filter_eq_some_iff, ← KeyedList.contains_iff]

theorem fresh?_eq_none_iff :
    w.fresh? t models = none ↔ ∀ e, w.expansion? t = some e → e.id ∈ models.keys := by
  simp [fresh?, Option.filter_eq_none_iff, ← KeyedList.contains_iff]

/-- A visit registers the model of a fresh type before it goes on to the types below. -/
theorem visit?_succ (depth : Nat) : w.visit? (depth + 1) t models =
    match w.fresh? t models with
    | none => some models
    | some e => (w.next e.declaration).foldlM (fun found u => w.visit? depth u found)
        (models.insert (w.modelOf e)) := by
  rw [visit?, fresh?, expansion?]
  cases w.subject? t with
  | none => rfl
  | some subject =>
    obtain ⟨d, id⟩ := subject
    cases hm : (w.members d).isEmpty <;> cases hid : models.contains id <;>
      simp [hm, hid, modelOf, Option.filter]

end Walk

end ApiModels
