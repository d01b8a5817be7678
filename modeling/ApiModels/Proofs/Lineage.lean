import ApiModels.Proofs.Walk.Termination

/-!
# Lineages

The lineage of a declaration stays in the catalog, and it is the same in every catalog that knows
the superclasses of the declarations equally well: how many other declarations there are does not
matter.

`Catalog.Ancestry` says without a bound on the number of steps which declarations follow in a
lineage; the lineage is the declaration itself and its ancestry (`Catalog.lineage_eq_cons`).
-/

namespace ApiModels.Catalog

variable {c c' : Catalog} {a d : Declaration} {seen : List String} {fuel : Nat}

private theorem mem_of_mem_lineageFrom (hd : d ∈ c.declarations)
    (ha : a ∈ c.lineageFrom fuel seen d) : a ∈ c.declarations := by
  induction fuel generalizing seen d with
  | zero => cases ha
  | succ fuel ih =>
    rw [lineageFrom] at ha
    split at ha
    · cases ha
    · rcases List.mem_cons.1 ha with rfl | ha
      · exact hd
      · cases hp : d.superclass.bind c.declaration? with
        | none =>
          rw [hp] at ha
          cases ha
        | some parent =>
          rw [hp] at ha
          exact ih (mem_of_superclass hp) ha

theorem mem_of_mem_lineage (hd : d ∈ c.declarations) (ha : a ∈ c.lineage d) :
    a ∈ c.declarations :=
  mem_of_mem_lineageFrom hd ha

private theorem lineageFrom_congr (hd : d ∈ c.declarations)
    (h : ∀ a ∈ c.declarations,
      a.superclass.bind c'.declaration? = a.superclass.bind c.declaration?) :
    c'.lineageFrom fuel seen d = c.lineageFrom fuel seen d := by
  induction fuel generalizing seen d with
  | zero => rfl
  | succ fuel ih =>
    rw [lineageFrom, lineageFrom, h d hd]
    cases hp : d.superclass.bind c.declaration? with
    | none => rfl
    | some parent => simp only [ih (mem_of_superclass hp)]

/-- A larger catalog that has the same superclasses gives the same lineages. -/
theorem lineage_congr (hd : d ∈ c.declarations) (hsize : KeyedList.size c ≤ KeyedList.size c')
    (h : ∀ a ∈ c.declarations,
      a.superclass.bind c'.declaration? = a.superclass.bind c.declaration?) :
    c'.lineage d = c.lineage d := by
  obtain ⟨extra, hextra⟩ := Nat.exists_eq_add_of_le hsize
  have hfuel : KeyedList.size c' + 1 = KeyedList.size c + 1 + extra := by omega
  rw [lineage, lineageFrom_congr hd h, hfuel, lineageFrom_size]

/-! ## Ancestors -/

/-- The ancestors of a declaration, nearest first. They end where a declaration has no superclass,
where the catalog does not declare it, and where its name is in `seen`. -/
inductive Ancestry (c : Catalog) : List String → Declaration → List Declaration → Prop where
  | last {seen : List String} {d : Declaration} :
    (∀ a, d.superclass.bind c.declaration? = some a → a.name ∈ seen) → Ancestry c seen d []
  | parent {seen : List String} {d a : Declaration} {above : List Declaration} :
    d.superclass.bind c.declaration? = some a → a.name ∉ seen →
    Ancestry c (a.name :: seen) a above → Ancestry c seen d (a :: above)

variable {above above' : List Declaration}

namespace Ancestry

/-- A declaration has one list of ancestors. -/
theorem unique (h : Ancestry c seen d above) (h' : Ancestry c seen d above') : above = above' := by
  induction h generalizing above' with
  | last hlast =>
    cases h' with
    | last _ => rfl
    | parent ha hseen _ => exact absurd (hlast _ ha) hseen
  | parent ha hseen _ ih =>
    cases h' with
    | last hlast => exact absurd (hlast _ ha) hseen
    | parent ha' _ habove =>
      cases ha.symm.trans ha'
      rw [ih habove]

/-- Only the superclass of a declaration counts for its ancestors. -/
theorem of_superclass_eq (h : Ancestry c seen d above) (heq : a.superclass = d.superclass) :
    Ancestry c seen a above := by
  cases h with
  | last hlast => exact .last (heq ▸ hlast)
  | parent ha hseen habove => exact .parent (heq ▸ ha) hseen habove

end Ancestry

private theorem lineageFrom_succ (h : d.name ∉ seen) : c.lineageFrom (fuel + 1) seen d =
    d :: (d.superclass.bind c.declaration?).elim [] (c.lineageFrom fuel (d.name :: seen)) := by
  rw [lineageFrom, if_neg (by simpa using h)]
  cases d.superclass.bind c.declaration? <;> rfl

/-- What a lineage goes on with is an ancestry if that is so from every parent. -/
private theorem ancestry_elim (h : ∀ a, d.superclass.bind c.declaration? = some a →
      a.name ∉ seen → ∃ above, c.lineageFrom fuel seen a = a :: above ∧
        Ancestry c (a.name :: seen) a above) :
    Ancestry c seen d ((d.superclass.bind c.declaration?).elim [] (c.lineageFrom fuel seen)) := by
  cases hp : d.superclass.bind c.declaration? with
  | none => exact .last fun a ha => nomatch hp.symm.trans ha
  | some a =>
    rw [Option.elim_some]
    by_cases hseen : a.name ∈ seen
    · rw [lineageFrom_of_mem hseen]
      apply Ancestry.last
      intro b hb
      cases hp.symm.trans hb
      exact hseen
    · obtain ⟨above, hlineage, habove⟩ := h a hp hseen
      rw [hlineage]
      exact .parent hp hseen habove

/-- Every step of a lineage uses up a name of the catalog, so it gets to the end. -/
private theorem exists_ancestry_of_mem (hd : d ∈ c.declarations) (hseen : d.name ∉ seen)
    (hfuel : c.unseen seen ≤ fuel) : ∃ above, c.lineageFrom fuel seen d = d :: above ∧
      Ancestry c (d.name :: seen) d above := by
  induction fuel generalizing seen d with
  | zero =>
    have hlt := unseen_cons_lt hd hseen
    omega
  | succ fuel ih =>
    have hlt := unseen_cons_lt hd hseen
    refine ⟨_, lineageFrom_succ hseen, ancestry_elim fun a ha hseen => ?_⟩
    exact ih (mem_of_superclass ha) hseen (by omega)

/-- The lineage of a declaration is the declaration and its ancestors. -/
theorem exists_ancestry (c : Catalog) (d : Declaration) :
    ∃ above, c.lineage d = d :: above ∧ Ancestry c [d.name] d above := by
  have hle : c.unseen [d.name] ≤ KeyedList.size c := List.countP_le_length
  refine ⟨_, lineageFrom_succ List.not_mem_nil, ancestry_elim fun a ha hseen => ?_⟩
  exact exists_ancestry_of_mem (mem_of_superclass ha) hseen hle

theorem lineage_eq_cons (h : Ancestry c [d.name] d above) : c.lineage d = d :: above := by
  obtain ⟨above', hlineage, h'⟩ := c.exists_ancestry d
  rw [hlineage, h.unique h']

end ApiModels.Catalog
