import ApiModels.Options
import ApiModels.Proofs.Opacity

/-!
# Options that close more types

Lists of types and of packages can be added to options any number of times. What is added closes
types and opens none: the policy leaves open what it left open before, less the types that an added
entry names or begins.
-/

namespace ApiModels

/-- An entry of a list is one of the parts between the commas, trimmed; empty ones do not count. -/
theorem mem_splitElements {x list : String} : x ∈ splitElements list ↔
    x ≠ "" ∧ ∃ part ∈ Text.splitChars ',' list.toList, Text.trimChars part = x.toList := by
  simp only [splitElements, List.mem_filterMap, List.mem_map]
  constructor
  · rintro ⟨_, ⟨part, hpart, rfl⟩, hx⟩
    split at hx
    · cases hx
    · rename_i hne
      cases hx
      refine ⟨fun hempty => hne ?_, part, hpart, String.toList_ofList.symm⟩
      rw [String.ofList_eq_empty_iff.1 hempty]
      rfl
  · rintro ⟨hne, part, hpart, hx⟩
    refine ⟨x.toList, ⟨part, hpart, hx⟩, ?_⟩
    rw [if_neg (by simpa using hne), String.ofList_toList]

/-- A list that is given to close types. -/
inductive Closing where
  /-- Closes the types that are listed. -/
  | types (list : String)
  /-- Closes the types whose names begin with an entry. -/
  | packages (list : String)
deriving DecidableEq, Repr

namespace Closing

/-- The types that are listed. -/
def typeNames : Closing → List String
  | .types list => splitElements list
  | .packages _ => []

/-- The beginnings that are listed. -/
def packageNames : Closing → List String
  | .types _ => []
  | .packages list => splitElements list

end Closing

namespace Options

variable {o : Options} {closing : Closing} {closings : List Closing} {c : Catalog} {t : TypeRef}
  {b : String}

/-- The options with a list added. -/
def close (o : Options) : Closing → Options
  | .types list => o.addClosedTypes list
  | .packages list => o.addClosedPackages list

/-- The options with several lists added. -/
def closeAll (o : Options) (closings : List Closing) : Options := closings.foldl close o

theorem closeAll_eq (o : Options) (closings : List Closing) : o.closeAll closings =
    { o with
      closedTypes := o.closedTypes ++ closings.flatMap Closing.typeNames
      closedPackages := o.closedPackages ++ closings.flatMap Closing.packageNames } := by
  induction closings generalizing o with
  | nil => simp [closeAll]
  | cons closing closings ih =>
    rw [closeAll, List.foldl_cons, ← closeAll, ih]
    cases closing <;>
      simp [close, addClosedTypes, addClosedPackages, Closing.typeNames, Closing.packageNames]

/-- What the policy leaves open after lists were added it left open before. -/
theorem leavesOpen_of_closeAll (h : (o.closeAll closings).policy.LeavesOpen c t) :
    o.policy.LeavesOpen c t := by
  rw [closeAll_eq] at h
  exact h.mono (List.Subset.refl _) rfl (List.subset_append_left _ _) (List.subset_append_left _ _)

theorem name_not_mem_typeNames (h : (o.closeAll closings).policy.LeavesOpen c t)
    (hc : closing ∈ closings) : t.name ∉ closing.typeNames := by
  rw [closeAll_eq] at h
  exact fun hmem => h.notListed (List.mem_append_right _ (List.mem_flatMap.2 ⟨_, hc, hmem⟩))

theorem not_prefix_of_mem_packageNames (h : (o.closeAll closings).policy.LeavesOpen c t)
    (hc : closing ∈ closings) (hb : b ∈ closing.packageNames) : ¬b.toList <+: t.name.toList := by
  have hne : b ≠ "" := by
    cases closing with
    | types list => cases hb
    | packages list => exact (mem_splitElements.1 hb).1
  rw [closeAll_eq] at h
  exact h.notInPackage b (List.mem_append_right _ (List.mem_flatMap.2 ⟨_, hc, hb⟩)) hne

end Options

end ApiModels
