import ApiModels.Opacity

/-!
# What a policy leaves open

The rules of a policy are tried one after another; together they leave a type open exactly if none
of them applies to its qualified name and it is declared. So a policy that has more rules leaves
fewer types open.
-/

namespace ApiModels

theorem startsWithAny_eq_false_iff {beginnings : List String} {name : String} :
    startsWithAny beginnings name = false ↔
      ∀ b ∈ beginnings, b ≠ "" → ¬b.toList <+: name.toList := by
  simp [startsWithAny]

namespace Opacity

variable {policy closer : Opacity} {c : Catalog} {t : TypeRef}

/-- A type that no rule closes. -/
structure LeavesOpen (policy : Opacity) (c : Catalog) (t : TypeRef) : Prop where
  notBuiltin : t.isBuiltin = false
  notReserved : ∀ b ∈ policy.reserved, b ≠ "" → ¬b.toList <+: t.name.toList
  notBase : t.name ≠ policy.base
  notListed : t.name ∉ policy.types
  notInPackage : ∀ b ∈ policy.packages, b ≠ "" → ¬b.toList <+: t.name.toList
  declared : ∃ d, c.declaration? t = some d

theorem reason?_eq_none_iff : policy.reason? c t = none ↔
    t.isBuiltin = false ∧ startsWithAny policy.reserved t.name = false ∧ t.name ≠ policy.base ∧
      t.name ∉ policy.types ∧ startsWithAny policy.packages t.name = false ∧
      ∃ d, c.declaration? t = some d := by
  rw [reason?, ← Option.isSome_iff_exists, Option.isSome_iff_ne_none]
  repeat' split
  all_goals simp_all

theorem isTerminal_eq_false_iff : policy.isTerminal c t = false ↔ policy.LeavesOpen c t := by
  rw [isTerminal, Option.isSome_eq_false_iff, Option.isNone_iff_eq_none, reason?_eq_none_iff,
    startsWithAny_eq_false_iff, startsWithAny_eq_false_iff]
  constructor
  · rintro ⟨hbuiltin, hreserved, hbase, htypes, hpackages, hd⟩
    exact ⟨hbuiltin, hreserved, hbase, htypes, hpackages, hd⟩
  · rintro ⟨hbuiltin, hreserved, hbase, htypes, hpackages, hd⟩
    exact ⟨hbuiltin, hreserved, hbase, htypes, hpackages, hd⟩

theorem isTerminal_congr_catalog {c' : Catalog} (policy : Opacity)
    (h : c'.declaration? t = c.declaration? t) : policy.isTerminal c' t = policy.isTerminal c t := by
  simp only [isTerminal, reason?, h]

/-- What is left open by a policy with more rules is left open by one with fewer. -/
theorem LeavesOpen.mono (h : closer.LeavesOpen c t) (reserved : policy.reserved ⊆ closer.reserved)
    (base : policy.base = closer.base) (types : policy.types ⊆ closer.types)
    (packages : policy.packages ⊆ closer.packages) : policy.LeavesOpen c t where
  notBuiltin := h.notBuiltin
  notReserved b hb := h.notReserved b (reserved hb)
  notBase := base ▸ h.notBase
  notListed hmem := h.notListed (types hmem)
  notInPackage b hb := h.notInPackage b (packages hb)
  declared := h.declared

end Opacity

end ApiModels
