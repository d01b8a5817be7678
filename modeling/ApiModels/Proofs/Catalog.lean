import ApiModels.CommandLine.Run
import ApiModels.Proofs.KeyedList.Calls
import ApiModels.Proofs.QualifiedName
import ApiModels.Proofs.TypeRef.SimpleName

/-!
# Looking declarations up by name

A name stands for the declaration that has it as its qualified name, or else for the only one that has
it as its simple name (`Catalog.lookup?_eq_some_iff`). So neither the order of the declarations nor,
for a qualified name, what is added later makes a difference, and a root may be given by its simple
name where no other type has the same one.
-/

namespace ApiModels.Catalog

open KeyedList
open TypeRef (IsSimpleName simpleNameOf simpleNameOf_eq_iff)

variable {c c' : Catalog} {d : Declaration} {n : String} {ds : List Declaration}

theorem onlyMember?_eq_some_iff : onlyMember? ds = some d ↔ ds = [d] := by
  rw [onlyMember?.eq_def]
  split <;> simp_all

/-- The only declaration of a list that has a property. -/
theorem onlyMember?_filter_eq_some_iff {p : Declaration → Bool} (h : ds.Nodup) :
    onlyMember? (ds.filter p) = some d ↔ d ∈ ds ∧ ∀ e ∈ ds, p e = true ↔ e = d := by
  rw [onlyMember?_eq_some_iff]
  constructor
  · intro hfilter
    have hmem (e : Declaration) : e ∈ ds ∧ p e = true ↔ e = d := by
      rw [← List.mem_filter, hfilter, List.mem_singleton]
    exact ⟨((hmem d).2 rfl).1, fun e he => by rw [← hmem e, and_iff_right he]⟩
  · rintro ⟨hd, honly⟩
    have hsingle : [d].Nodup := by simp
    refine List.perm_singleton.1 ((List.perm_ext_iff_of_nodup (h.filter p) hsingle).2 fun e => ?_)
    rw [List.mem_filter, List.mem_singleton]
    constructor
    · rintro ⟨he, hp⟩
      exact (honly e he).1 hp
    · rintro rfl
      exact ⟨hd, (honly e hd).2 rfl⟩

/-- A qualified name is found before any simple name. -/
theorem lookup?_eq_some_iff : c.lookup? n = some d ↔ d ∈ c.declarations ∧
    (d.name = n ∨ (∀ e ∈ c.declarations, e.name ≠ n) ∧
      ∀ e ∈ c.declarations, IsSimpleName e.name n ↔ e = d) := by
  rw [lookup?]
  cases hfind : KeyedList.find? c n with
  | some d' =>
    obtain ⟨hd', hname'⟩ := find?_eq_some_iff.1 hfind
    constructor
    · rintro ⟨⟩
      exact ⟨hd', .inl hname'⟩
    · rintro ⟨hd, hname | ⟨hnone, -⟩⟩
      · rw [find?_eq_some_iff.2 ⟨hd, hname⟩] at hfind
        exact hfind.symm
      · exact (hnone d' hd' hname').elim
  | none =>
    have hnone : ∀ e ∈ c.declarations, e.name ≠ n := by
      intro e he hname
      exact find?_eq_none_iff.1 hfind (hname ▸ List.mem_map_of_mem he)
    have honly := onlyMember?_filter_eq_some_iff (d := d)
      (p := (simpleNameOf ·.name == n)) c.nodup_toList
    simp only [beq_iff_eq, simpleNameOf_eq_iff] at honly
    rw [honly]
    constructor
    · rintro ⟨hd, hsimple⟩
      exact ⟨hd, .inr ⟨hnone, hsimple⟩⟩
    · rintro ⟨hd, hname | ⟨-, hsimple⟩⟩
      · exact (hnone d hd hname).elim
      · exact ⟨hd, hsimple⟩

/-- The same declarations in another order. -/
def shopReversed : Catalog :=
  .ofList [{ name := "Item", kind := .enumeration ["A"] }, { name := "shop::Item" },
    { name := "com.acme.Order" }]

end ApiModels.Catalog
