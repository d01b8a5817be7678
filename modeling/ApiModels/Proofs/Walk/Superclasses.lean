import Mathlib.Data.List.Chain
import ApiModels.Proofs.Lineage

/-!
# Superclass chains

From a declaration of the catalog the superclass links lead along one chain of declarations. It ends
where there is no further link, where a link leaves the catalog, or where it comes back into the
chain, be it to the start or to the middle. `Catalog.SuperclassChain` says this without a list of
seen names; the lineage of a declaration is its only superclass chain
(`Catalog.SuperclassChain.eq_lineage`), and just the declarations that superclass links lead to
stand in it (`Catalog.mem_lineage_iff`). A model reads its fields off this chain
(`Walk.superclassChain_fields`).
-/

namespace ApiModels

namespace Catalog

/-- Whether `a` is what the catalog declares for the superclass of `d`. -/
def Extends (c : Catalog) (d a : Declaration) : Prop := d.superclass.bind c.declaration? = some a

/-- A declaration and its ancestors, nearest first: each one is declared for the superclass of the
one before, no name stands twice, and the superclass of the last is missing, undeclared or in the
chain. -/
structure SuperclassChain (c : Catalog) (d : Declaration) (chain : List Declaration) : Prop where
  head : chain.head? = some d
  links : chain.IsChain c.Extends
  nodup : (chain.map (·.name)).Nodup
  last : ∀ e ∈ chain.getLast?, e.superclass = none ∨ ∃ t, e.superclass = some t ∧
    (c.declaration? t = none ∨ ∃ a ∈ chain, c.declaration? t = some a)

variable {c : Catalog} {a b d e : Declaration} {seen : List String}
  {above chain : List Declaration}

theorem Extends.unique (ha : c.Extends d a) (hb : c.Extends d b) : a = b :=
  Option.some.inj (ha.symm.trans hb)

theorem Extends.mem (h : c.Extends d a) : a ∈ c.declarations := mem_of_superclass h

theorem eq_of_name (ha : a ∈ c.declarations) (hb : b ∈ c.declarations) (h : a.name = b.name) :
    a = b :=
  Option.some.inj ((KeyedList.find?_eq_some_iff.2 ⟨ha, h⟩).symm.trans
    (KeyedList.find?_eq_some_iff.2 ⟨hb, rfl⟩))

/-! ## Ancestries as chains -/

namespace Ancestry

theorem links (h : Ancestry c seen d above) : (d :: above).IsChain c.Extends := by
  induction h with
  | last _ => exact .singleton _
  | parent ha _ _ ih => exact .cons_cons ha ih

theorem name_not_mem (h : Ancestry c seen d above) : ∀ a ∈ above, a.name ∉ seen := by
  induction h with
  | last _ => exact fun a ha => nomatch ha
  | parent _ hseen _ ih =>
    intro b hb
    rcases List.mem_cons.1 hb with rfl | hb
    · exact hseen
    · exact fun hmem => ih b hb (List.mem_cons_of_mem _ hmem)

theorem nodup (h : Ancestry c seen d above) : (above.map (·.name)).Nodup := by
  induction h with
  | last _ => exact .nil
  | @parent seen d a above _ _ habove ih =>
    refine List.nodup_cons.2 ⟨fun hmem => ?_, ih⟩
    obtain ⟨b, hb, hname⟩ := List.mem_map.1 hmem
    exact habove.name_not_mem b hb (hname ▸ List.mem_cons_self)

/-- The last link leads nowhere or back to a name that is known. -/
theorem name_mem (h : Ancestry c seen d above) (he : e ∈ (d :: above).getLast?)
    (hb : c.Extends e b) : b.name ∈ seen ∨ b.name ∈ above.map (·.name) := by
  induction h with
  | last hlast =>
    cases he
    exact .inl (hlast b hb)
  | parent _ _ _ ih =>
    rw [List.getLast?_cons_cons] at he
    rcases ih he with hmem | hmem
    · rcases List.mem_cons.1 hmem with hname | hmem
      · exact .inr (hname ▸ List.mem_cons_self)
      · exact .inl hmem
    · exact .inr (List.mem_cons_of_mem _ hmem)

/-- A chain that ends only where it has to is an ancestry. -/
theorem of_links (links : (d :: above).IsChain c.Extends) (nodup : (above.map (·.name)).Nodup)
    (fresh : ∀ a ∈ above, a.name ∉ seen)
    (closed : ∀ e ∈ (d :: above).getLast?, ∀ b, c.Extends e b →
      b.name ∈ seen ∨ b.name ∈ above.map (·.name)) : Ancestry c seen d above := by
  induction above generalizing d seen with
  | nil =>
    apply Ancestry.last
    intro a ha
    exact (closed d rfl a ha).resolve_right List.not_mem_nil
  | cons a above ih =>
    obtain ⟨ha, hlinks⟩ := List.isChain_cons_cons.1 links
    obtain ⟨hname, hnodup⟩ := List.nodup_cons.1 nodup
    refine .parent ha (fresh a List.mem_cons_self) (ih hlinks hnodup ?_ ?_)
    · intro b hb hmem
      rcases List.mem_cons.1 hmem with heq | hmem
      · exact hname (List.mem_map.2 ⟨b, hb, heq⟩)
      · exact fresh b (List.mem_cons_of_mem a hb) hmem
    · intro e he b hb
      have hlast : e ∈ (d :: a :: above).getLast? := by rwa [List.getLast?_cons_cons]
      rcases closed e hlast b hb with hmem | hmem
      · exact .inl (List.mem_cons_of_mem _ hmem)
      · rcases List.mem_cons.1 hmem with heq | hmem
        · exact .inl (heq ▸ List.mem_cons_self)
        · exact .inr hmem

end Ancestry

/-! ## The lineage is the superclass chain -/

theorem superclassChain_lineage (hd : d ∈ c.declarations) : c.SuperclassChain d (c.lineage d) := by
  obtain ⟨above, hlineage, h⟩ := c.exists_ancestry d
  rw [hlineage]
  refine ⟨rfl, h.links, ?_, fun e he => ?_⟩
  · refine List.nodup_cons.2 ⟨fun hmem => ?_, h.nodup⟩
    obtain ⟨a, ha, hname⟩ := List.mem_map.1 hmem
    exact h.name_not_mem a ha (hname ▸ List.mem_cons_self)
  · cases hsuper : e.superclass with
    | none => exact .inl rfl
    | some t =>
      refine .inr ⟨t, rfl, ?_⟩
      cases hb : c.declaration? t with
      | none => exact .inl rfl
      | some b =>
        have hext : c.Extends e b := by rw [Extends, hsuper, Option.bind_some, hb]
        refine .inr ⟨b, ?_, rfl⟩
        -- the link leads back to a name of the chain, and a name has one declaration
        rcases h.name_mem he hext with hname | hname
        · rw [eq_of_name hext.mem hd (List.mem_singleton.1 hname)]
          exact List.mem_cons_self
        · obtain ⟨a, ha, hname⟩ := List.mem_map.1 hname
          have hmem : a ∈ c.declarations :=
            mem_of_mem_lineage hd (hlineage ▸ List.mem_cons_of_mem d ha)
          rw [← eq_of_name hmem hext.mem hname]
          exact List.mem_cons_of_mem d ha

/-- The link of the last declaration leads nowhere or back into the chain. -/
theorem SuperclassChain.mem_of_last (h : c.SuperclassChain d chain) (he : e ∈ chain.getLast?)
    (hb : c.Extends e b) : b ∈ chain := by
  obtain ⟨t, ht, hdeclared⟩ := Option.bind_eq_some_iff.1 hb
  rcases h.last e he with hnone | ⟨t', ht', hnone | ⟨a, ha, hsome⟩⟩
  · cases hnone.symm.trans ht
  · cases ht.symm.trans ht'
    cases hnone.symm.trans hdeclared
  · cases ht.symm.trans ht'
    cases hsome.symm.trans hdeclared
    exact ha

theorem SuperclassChain.eq_lineage (h : c.SuperclassChain d chain) : chain = c.lineage d := by
  cases chain with
  | nil => cases h.head
  | cons d' above =>
    cases h.head
    obtain ⟨hname, hnodup⟩ := List.nodup_cons.1 h.nodup
    refine (lineage_eq_cons (Ancestry.of_links h.links hnodup ?_ ?_)).symm
    · intro a ha hmem
      exact hname (List.mem_map.2 ⟨a, ha, List.mem_singleton.1 hmem⟩)
    · intro e he b hb
      rcases List.mem_cons.1 (h.mem_of_last he hb) with rfl | hmem
      · exact .inl List.mem_cons_self
      · exact .inr (List.mem_map_of_mem hmem)

/-- A link from the chain stays in the chain. -/
theorem SuperclassChain.mem_of_extends (h : c.SuperclassChain d chain) (ha : a ∈ chain)
    (hb : c.Extends a b) : b ∈ chain := by
  obtain ⟨before, after, rfl⟩ := List.append_of_mem ha
  cases after with
  | nil => exact h.mem_of_last (by simp) hb
  | cons b' after =>
    have hlink : c.Extends a b' := (List.isChain_cons_cons.1 h.links.right_of_append).1
    rw [hb.unique hlink]
    simp

theorem mem_lineage_iff (hd : d ∈ c.declarations) :
    a ∈ c.lineage d ↔ Relation.ReflTransGen c.Extends d a := by
  have h := superclassChain_lineage hd
  obtain ⟨above, hlineage, -⟩ := c.exists_ancestry d
  constructor
  · intro ha
    have hlinks := h.links
    rw [hlineage] at ha hlinks
    rcases List.mem_cons.1 ha with rfl | ha
    · exact .refl
    · exact hlinks.cons_induction (Relation.ReflTransGen c.Extends d) _
        (fun _ _ hstep hreach => .tail hreach hstep) .refl a ha
  · intro hreach
    induction hreach with
    | refl =>
      rw [hlineage]
      exact List.mem_cons_self
    | tail _ hstep ih => exact h.mem_of_extends ih hstep

end Catalog

namespace Walk

/-- A model reads the fields of one chain of declarations, one after another: the declaration and
its ancestors, nearest first. The chain is the only one that follows the superclass links until they
end, leave the catalog or come back, so each declaration in it adds its fields once; every
declaration that links lead to is in it. More steps than there are declarations do not change it. -/
theorem superclassChain_fields (w : Walk) (d : Declaration) (hd : d ∈ w.catalog.declarations) :
    ∃ chain, w.catalog.SuperclassChain d chain ∧
      (∀ other, w.catalog.SuperclassChain d other → other = chain) ∧
      (∀ a, a ∈ chain ↔ Relation.ReflTransGen w.catalog.Extends d a) ∧
      (∀ extra, w.catalog.lineageFrom (KeyedList.size w.catalog + 1 + extra) [] d = chain) ∧
      w.candidates d = (chain.flatMap (·.fields)).filterMap w.fieldMember? ++
        d.methods.filterMap w.methodMember? :=
  ⟨w.catalog.lineage d, Catalog.superclassChain_lineage hd, fun _ h => h.eq_lineage,
    fun _ => Catalog.mem_lineage_iff hd, Catalog.lineageFrom_size w.catalog d, rfl⟩

/-- A walk over types whose superclass links form a cycle that does not lead back to the start. -/
def vehicles : Walk where
  catalog :=
    let type (name parent : String) : Declaration :=
      { name, superclass := some { name := parent }
        fields := [{ name := name.toLower, type := { name := "int" } }] }
    .ofList [type "Van" "Car", type "Car" "Vehicle", type "Vehicle" "Asset", type "Asset" "Car",
      type "Boat" "Craft"]
  policy := {}
  chain := [.declared]

theorem vehicles_superclassChain_fields : ∃ d ∈ vehicles.catalog.declarations, d.name = "Van" ∧
    ∃ chain, vehicles.catalog.SuperclassChain d chain ∧
      chain.map (·.name) = ["Van", "Car", "Vehicle", "Asset"] ∧
      (vehicles.candidates d).map (·.name) = ["van", "car", "vehicle", "asset"] := by
  obtain ⟨d, hd, hname, hfields⟩ : ∃ d ∈ vehicles.catalog.declarations, d.name = "Van" ∧
      (vehicles.catalog.lineage d).map (·.name) = ["Van", "Car", "Vehicle", "Asset"] ∧
      (vehicles.candidates d).map (·.name) = ["van", "car", "vehicle", "asset"] := by decide +kernel
  obtain ⟨chain, hchain, -, -, hsteps, -⟩ := superclassChain_fields vehicles d hd
  exact ⟨d, hd, hname, chain, hchain, hsteps 0 ▸ hfields.1, hfields.2⟩

end Walk

end ApiModels
