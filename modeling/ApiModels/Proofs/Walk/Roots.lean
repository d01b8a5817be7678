import ApiModels.Proofs.ModelSet
import ApiModels.Proofs.Walk.Agreement
import ApiModels.Proofs.Walk.Merge

/-!
# The order of roots

The merged models of several roots are the models of each of them (`Walk.mem_mergedModels`): where
names tell types apart, which root comes first decides only about the order. The order of the
declarations decides about nothing else either, since a walk looks declarations up by name.
-/

namespace ApiModels

variable {c : Catalog}

namespace Catalog

variable {c' : Catalog}

theorem declaration?_of_perm (h : c'.declarations.Perm c.declarations) (t : TypeRef) :
    c'.declaration? t = c.declaration? t := by
  ext d
  rw [declaration?_eq_some_iff, declaration?_eq_some_iff, h.mem_iff]

theorem size_of_perm (h : c'.declarations.Perm c.declarations) :
    KeyedList.size c' = KeyedList.size c :=
  h.length_eq

end Catalog

namespace Walk

variable {w : Walk} {m m' : Model} {root t : TypeRef} {roots roots' : List TypeRef}
  {found : ModelSet}

/-- Whether `m` is the model that a walk registers for some type. -/
def IsModel (w : Walk) (m : Model) : Prop := ∃ t e, w.expansion? t = some e ∧ w.modelOf e = m

theorem NamesApart.eq_of_isModel (apart : w.NamesApart) (hm : w.IsModel m) (hm' : w.IsModel m')
    (h : m.id = m'.id) : m = m' := by
  obtain ⟨s, e, he, rfl⟩ := hm
  obtain ⟨t, f, hf, rfl⟩ := hm'
  rw [apart.eq_of_id he hf h]

theorem isModel_of_mem_models (h : m ∈ (w.models root).toList) : w.IsModel m := by
  obtain ⟨log, hlog, -, hlist⟩ := exists_log w root
  rw [hlist] at h
  obtain ⟨e, he, rfl⟩ := List.mem_map.1 h
  exact ⟨_, e, hlog.expansion?_of_mem he, rfl⟩

/-- A merge drops only models that are there already. -/
theorem mem_merge_models (apart : w.NamesApart) (hfound : ∀ m ∈ found.toList, w.IsModel m) :
    m ∈ (ModelSet.merge found (w.models root)).toList ↔
      m ∈ found.toList ∨ m ∈ (w.models root).toList := by
  rw [KeyedList.mem_extend]
  constructor
  · exact Or.imp_right And.right
  · rintro (hm | hm)
    · exact .inl hm
    · by_cases hid : m.id ∈ found.keys
      · obtain ⟨m', hm', heq⟩ := List.mem_map.1 hid
        cases apart.eq_of_isModel (hfound m' hm') (isModel_of_mem_models hm) heq
        exact .inl hm'
      · exact .inr ⟨hid, hm⟩

theorem mem_foldl_merge (apart : w.NamesApart) (hfound : ∀ m ∈ found.toList, w.IsModel m) :
    m ∈ (roots.foldl (fun found root => ModelSet.merge found (w.models root)) found).toList ↔
      m ∈ found.toList ∨ ∃ root ∈ roots, m ∈ (w.models root).toList := by
  induction roots generalizing found with
  | nil => simp
  | cons root roots ih =>
    have hnext : ∀ m ∈ (ModelSet.merge found (w.models root)).toList, w.IsModel m := by
      intro m hm
      rcases (mem_merge_models apart hfound).1 hm with hm | hm
      · exact hfound m hm
      · exact isModel_of_mem_models hm
    rw [List.foldl_cons, ih hnext, mem_merge_models apart hfound, or_assoc,
      List.exists_mem_cons_iff]

/-- The merged models are those of the roots. -/
theorem mem_mergedModels (apart : w.NamesApart) :
    m ∈ (w.mergedModels roots).toList ↔ ∃ root ∈ roots, m ∈ (w.models root).toList := by
  rw [mergedModels, mem_foldl_merge apart (by simp)]
  simp

theorem same_mergedModels (apart : w.NamesApart) (h : ∀ t, t ∈ roots ↔ t ∈ roots') :
    ModelSet.same (w.mergedModels roots) (w.mergedModels roots') = true := by
  refine KeyedList.equalUpToOrder_of_mem_iff Model.same_self fun m => ?_
  simp only [mem_mergedModels apart, h]

/-- A type whose name is taken adds nothing as a further root. -/
theorem mergedModels_append (apart : w.NamesApart) {id : String} (hid : w.typeName? t = some id)
    (hmem : id ∈ (w.mergedModels roots).ids) :
    w.mergedModels (roots ++ [t]) = w.mergedModels roots := by
  rw [mergedModels_eq_foldl_visit w _ apart] at hmem ⊢
  rw [mergedModels_eq_foldl_visit w _ apart, List.foldl_append]
  obtain ⟨log, hlog, hvisit⟩ := exists_visits w t
    (roots.foldl (fun found root => w.visit root found) .empty)
  have hnone : w.fresh? t (roots.foldl (fun found root => w.visit root found) .empty) = none := by
    refine fresh?_eq_none_iff.2 fun e he => ?_
    obtain ⟨-, -, hname⟩ := expansion?_eq_some_iff.1 he
    cases hid.symm.trans hname
    exact hmem
  cases hlog.unique (.skip hnone .nil)
  exact hvisit

/-! ## The order of declarations -/

section
variable (h : c.declarations.Perm w.catalog.declarations)
include h

theorem agreeOn_of_perm : AgreeOn w { w with catalog := c } fun _ => True where
  declaration? t _ := Catalog.declaration?_of_perm h t
  isTerminal t _ := w.policy.isTerminal_congr_catalog (Catalog.declaration?_of_perm h t)
  typeName? t _ := by simp only [typeName?, Catalog.declaration?_of_perm h]
  closed _ _ _ _ _ _ := trivial
  candidates d hd := by
    have hname (t) : typeName? { w with catalog := c } t = w.typeName? t := by
      simp only [typeName?, Catalog.declaration?_of_perm h]
    have hlineage : c.lineage d = w.catalog.lineage d := by
      refine Catalog.lineage_congr hd (Nat.le_of_eq (Catalog.size_of_perm h).symm) fun a _ => ?_
      rw [funext (Catalog.declaration?_of_perm h)]
    exact candidates_congr hlineage (fun a _ f _ => fieldMember?_congr rfl (hname f.type))
      fun g _ => methodMember?_congr rfl (hname g.returns)

theorem mergedModels_of_perm (roots : List TypeRef) :
    mergedModels { w with catalog := c } roots = w.mergedModels roots := by
  simp only [mergedModels, (agreeOn_of_perm h).models_eq trivial]

theorem mem_defaultRoots_of_perm : t ∈ defaultRoots c ↔ t ∈ defaultRoots w.catalog := by
  simp only [defaultRoots, List.mem_map, List.mem_filter, h.mem_iff]

end

/-- Where names tell types apart, the merged models of roots depend, up to their order, only on
which roots there are; a further root whose model is there changes nothing at all, and the models of
the default roots do not depend on the order of the declarations. -/
theorem mergedModels_same (w : Walk) (apart : w.NamesApart) :
    (∀ roots roots', (∀ t, t ∈ roots ↔ t ∈ roots') →
      ModelSet.same (w.mergedModels roots) (w.mergedModels roots') = true) ∧
    (∀ roots t d id, w.catalog.declaration? t = some d → w.typeName? t = some id →
      id ∈ (w.mergedModels roots).ids →
      w.mergedModels (roots ++ [t]) = w.mergedModels roots) ∧
    ∀ c : Catalog, c.declarations.Perm w.catalog.declarations →
      ModelSet.same (mergedModels { w with catalog := c } (defaultRoots c))
        (w.mergedModels (defaultRoots w.catalog)) = true := by
  refine ⟨fun roots roots' h => same_mergedModels apart h, fun roots t d id _ hid hmem => ?_,
    fun c h => ?_⟩
  · exact mergedModels_append apart hid hmem
  · rw [mergedModels_of_perm h]
    exact same_mergedModels apart fun t => mem_defaultRoots_of_perm h

/-- The shop's declarations in another order. -/
def shopReversed : Catalog := .ofList shop.catalog.declarations.reverse

theorem shop_mergedModels_same : shop.NamesApart ∧
    (shop.mergedModels [{ name := "shop.Party" }, { name := "shop.Line" }]).ids =
      ["Party", "Address", "Line", "Order", "Customer"] ∧
    (shop.mergedModels
      [{ name := "shop.Line" }, { name := "shop.Party" }, { name := "shop.Line" }]).ids =
      ["Line", "Order", "Customer", "Address", "Party"] ∧
    ModelSet.same (shop.mergedModels [{ name := "shop.Party" }, { name := "shop.Line" }])
      (shop.mergedModels
        [{ name := "shop.Line" }, { name := "shop.Party" }, { name := "shop.Line" }]) = true ∧
    shop.mergedModels ([{ name := "shop.Line" }] ++ [{ name := "shop.Customer" }]) =
      shop.mergedModels [{ name := "shop.Line" }] ∧
    ModelSet.same (mergedModels { shop with catalog := shopReversed } (defaultRoots shopReversed))
      (shop.mergedModels (defaultRoots shop.catalog)) = true := by
  have apart : shop.NamesApart := by decide +kernel
  obtain ⟨hroots, happend, horder⟩ := mergedModels_same shop apart
  obtain ⟨d, hd⟩ : ∃ d, shop.catalog.declaration? { name := "shop.Customer" } = some d :=
    Option.isSome_iff_exists.1 (by decide +kernel)
  refine ⟨apart, by decide +kernel, by decide +kernel, hroots _ _ fun t => ?_,
    happend _ _ d "Customer" hd (by decide +kernel) (by decide +kernel),
    horder shopReversed (by decide +kernel)⟩
  simp only [List.mem_cons, List.not_mem_nil, or_false]
  tauto

end Walk

end ApiModels
