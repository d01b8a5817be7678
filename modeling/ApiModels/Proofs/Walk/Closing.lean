import ApiModels.Proofs.Options
import ApiModels.Proofs.Walk.Merge

/-!
# Closing more types

What a property says of a member does not depend on the policy; the policy decides only which types
get a model. A policy that closes more types makes the walk take other paths, but none that lead out
of what the walk under the first policy has found, since that is closed: so where names tell types
apart, closing types only removes models.
-/

namespace ApiModels

/-- The walk through a catalog under the policy of the options. -/
def Options.walk (o : Options) (c : Catalog) (chain : List Translator) : Walk := ⟨c, o.policy, chain⟩

namespace Walk

variable {w : Walk} {closer : Opacity} {root t : TypeRef} {e : Expansion} {models : ModelSet}
  {m : Model}

section
variable (hopen : ∀ t, closer.isTerminal w.catalog t = false →
  w.policy.isTerminal w.catalog t = false)
include hopen

/-- What a type that stays open expands to does not depend on the policy. -/
theorem expansion?_of_closer (h : expansion? { w with policy := closer } t = some e) :
    w.expansion? t = some e := by
  obtain ⟨⟨ht, hnamed, hkeeps⟩, hd, hid⟩ := expansion?_eq_some_iff.1 h
  exact expansion?_eq_some_iff.2 ⟨⟨hopen t ht, hnamed, hkeeps⟩, hd, hid⟩

theorem Closed.of_closer (closed : w.Closed models) :
    Closed { w with policy := closer } models := by
  intro t e he hid u hu f hf
  exact closed t e (expansion?_of_closer hopen he) hid u hu f (expansion?_of_closer hopen hf)

theorem mem_models_of_closer (apart : w.NamesApart)
    (hm : m ∈ (Walk.models { w with policy := closer } root).toList) :
    m ∈ (w.models root).toList := by
  obtain ⟨log, hlog, hmodels, hlist⟩ := exists_log w root
  obtain ⟨log', hlog', -, hlist'⟩ := exists_log { w with policy := closer } root
  have closed : w.Closed (w.record .empty log) := hlog.closed apart closed_empty
  rw [hlist'] at hm
  obtain ⟨e, he, rfl⟩ := List.mem_map.1 hm
  have hid : e.id ∈ (w.record .empty log).ids := by
    refine hlog'.mem_ids_of_closed (closed.of_closer hopen) (fun t ht f hf => ?_) e he
    exact hlog.mem_keys_of_mem ht (expansion?_of_closer hopen hf)
  obtain ⟨f, hf, hfid⟩ := (mem_keys_record.1 hid).resolve_left List.not_mem_nil
  -- the model with this id is the one of the same type
  have heq : f = e := apart.eq_of_id (hlog.expansion?_of_mem hf)
    (expansion?_of_closer hopen (hlog'.expansion?_of_mem he)) hfid
  rw [hlist]
  exact List.mem_map_of_mem (heq ▸ hf)

end

/-- Closing types and packages by any lists removes models and changes none where names tell types
apart, and then no model is registered for a type that an added entry names or begins. -/
theorem models_closeAll (o : Options) (closings : List Closing) (c : Catalog)
    (chain : List Translator) (root : TypeRef) (apart : (o.walk c chain).NamesApart) :
    (∀ m ∈ (((o.closeAll closings).walk c chain).models root).toList,
      m ∈ ((o.walk c chain).models root).toList) ∧
    ∃ log : List Expansion,
      ((o.closeAll closings).walk c chain).Visits [root] .empty log ∧
      (((o.closeAll closings).walk c chain).models root).toList =
        log.map ((o.closeAll closings).walk c chain).modelOf ∧
      ∀ e ∈ log, ∀ closing ∈ closings, e.declaration.name ∉ closing.typeNames ∧
        ∀ b ∈ closing.packageNames, ¬b.toList <+: e.declaration.name.toList := by
  constructor
  · intro m hm
    refine mem_models_of_closer (w := o.walk c chain) (fun t ht => ?_) apart hm
    have hleft := Options.leavesOpen_of_closeAll (Opacity.isTerminal_eq_false_iff.1 ht)
    exact Opacity.isTerminal_eq_false_iff.2 hleft
  · obtain ⟨log, hlog, -, hlist⟩ := exists_log ((o.closeAll closings).walk c chain) root
    refine ⟨log, hlog, hlist, fun e he closing hc => ?_⟩
    obtain ⟨hx, -, -⟩ := expansion?_eq_some_iff.1 (hlog.expansion?_of_mem he)
    have hleft := Opacity.isTerminal_eq_false_iff.1 hx.isOpen
    exact ⟨Options.name_not_mem_typeNames hleft hc,
      fun b hb => Options.not_prefix_of_mem_packageNames hleft hc hb⟩

theorem shop_models_closeAll : (Options.walk {} shop.catalog [.declared]).NamesApart ∧
    (((Options.closeAll {} [.types " shop.Address ,, ", .packages "crm., shop.L"]).walk
      shop.catalog [.declared]).models { name := "shop.Order" }).ids = ["Order", "Customer"] ∧
    ∀ m ∈ (((Options.closeAll {} [.types " shop.Address ,, ", .packages "crm., shop.L"]).walk
      shop.catalog [.declared]).models { name := "shop.Order" }).toList,
      m ∈ ((Options.walk {} shop.catalog [.declared]).models { name := "shop.Order" }).toList := by
  have apart : (Options.walk {} shop.catalog [.declared]).NamesApart := by decide +kernel
  exact ⟨apart, by decide +kernel, (models_closeAll {} _ shop.catalog [.declared] _ apart).1⟩

end Walk

end ApiModels
