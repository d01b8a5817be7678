import Mathlib.Data.List.Nodup
import ApiModels.Proofs.FileTree.Below
import ApiModels.Scan

/-!
# What a search finds

Below a directory whose entries have names of their own, a search finds each file that no name to be
passed over leads to, and nothing else (`Scan.mem_filesBelow`). Entries stand in the one order that
their names have, so what is left out of a directory is left out of the result, and the rest of it
stays in its order (`Scan.byName_filterMap`).
-/

namespace ApiModels.Scan

/-! ## The order of names -/

section
variable {α β : Type} {a b c : String} {l l' : List (String × α)}

theorem inOrder_iff : inOrder a b = true ↔ a ≤ b := by
  rw [inOrder, Bool.not_eq_true', decide_eq_false_iff_not, String.not_lt]

/-- Entries in the order of their names. -/
def byName (l : List (String × α)) : List (String × α) := l.mergeSort fun a b => inOrder a.1 b.1

theorem byName_perm (l : List (String × α)) : (byName l).Perm l := l.mergeSort_perm _

theorem pairwise_byName (l : List (String × α)) : (byName l).Pairwise fun a b => a.1 ≤ b.1 := by
  have h : (byName l).Pairwise fun a b => inOrder a.1 b.1 = true := by
    refine List.pairwise_mergeSort (fun a b c hab hbc => ?_) (fun a b => ?_) l
    · exact inOrder_iff.2 (String.le_trans (inOrder_iff.1 hab) (inOrder_iff.1 hbc))
    · rw [Bool.or_eq_true, inOrder_iff, inOrder_iff]
      exact String.le_total a.1 b.1
  exact h.imp inOrder_iff.1

/-- Entries with names of their own have one order only. -/
theorem byName_eq (nodup : (l.map Prod.fst).Nodup) (hperm : l'.Perm l)
    (hl' : l'.Pairwise fun a b => a.1 ≤ b.1) : byName l = l' := by
  have hperm' := (byName_perm l).trans hperm.symm
  refine hperm'.eq_of_pairwise (fun a b ha hb hab hba => ?_) (pairwise_byName l) hl'
  have ha := (byName_perm l).mem_iff.1 ha
  have hb := hperm.mem_iff.1 hb
  exact List.inj_on_of_nodup_map nodup ha hb (String.le_antisymm hab hba)

theorem map_fst_filterMap_sublist {g : String × α → Option (String × β)}
    (hg : ∀ e e', g e = some e' → e'.1 = e.1) (l : List (String × α)) :
    ((l.filterMap g).map Prod.fst).Sublist (l.map Prod.fst) := by
  induction l with
  | nil => exact .slnil
  | cons e l ih =>
    rw [List.filterMap_cons]
    split
    · exact ih.cons _
    · rename_i e' he
      rw [List.map_cons, List.map_cons, hg e e' he]
      exact ih.cons_cons _

/-- Entries that go, or change but keep their names, leave the rest in its order. -/
theorem byName_filterMap {g : String × α → Option (String × β)}
    (hg : ∀ e e', g e = some e' → e'.1 = e.1) (nodup : (l.map Prod.fst).Nodup) :
    byName (l.filterMap g) = (byName l).filterMap g := by
  refine byName_eq ((map_fst_filterMap_sublist hg l).nodup nodup) ((byName_perm l).filterMap g) ?_
  refine List.Pairwise.filterMap g (fun e e' hle b hb b' hb' => ?_) (pairwise_byName l)
  rw [hg e b hb, hg e' b' hb']
  exact hle

/-- The entries that a search goes on to, in their order. -/
def searched (l : List (String × α)) : List (String × α) :=
  byName (l.filter fun e => !isSkipped e.1)

theorem mem_searched {e : String × α} : e ∈ searched l ↔ e ∈ l ∧ isSkipped e.1 = false := by
  rw [searched, (byName_perm _).mem_iff, List.mem_filter, Bool.not_eq_true']

theorem searched_filterMap {g : String × α → Option (String × β)}
    (hg : ∀ e e', g e = some e' → e'.1 = e.1) (nodup : (l.map Prod.fst).Nodup) :
    searched (l.filterMap g) = (searched l).filterMap g := by
  have hfilter : (l.filterMap g).filter (fun e => !isSkipped e.1) =
      (l.filter fun e => !isSkipped e.1).filterMap g := by
    rw [List.filter_filterMap, List.filterMap_filter]
    congr 1
    funext e
    cases he : g e with
    | none => cases isSkipped e.1 <;> rfl
    | some e' => rw [Option.filter_some, hg e e' he]
  rw [searched, hfilter]
  exact byName_filterMap hg ((List.filter_sublist.map _).nodup nodup)

end

/-! ## The files below a node -/

variable {path p : String} {node : Node} {entries : List (String × Node)}

theorem filesOf_eq (path : String) (entries : List (String × Node)) : filesOf path entries =
    (entries.filter fun e => !isSkipped e.1).map fun e =>
      (e.1, filesBelow (Path.join path e.1) e.2) := by
  induction entries with
  | nil => rfl
  | cons e entries ih =>
    rw [filesOf, List.filter_cons, ih]
    cases isSkipped e.1 <;> rfl

theorem filesBelow_directory (path : String) (entries : List (String × Node)) :
    filesBelow path (.directory entries) =
      (searched entries).flatMap fun e => filesBelow (Path.join path e.1) e.2 := by
  rw [filesBelow, filesOf_eq, ← List.map_mergeSort (r := fun a b => inOrder a.1 b.1)
    (fun _ _ _ _ => rfl), List.flatMap_map]
  rfl

/-- A search finds the files that names lead to of which none is passed over. -/
theorem mem_filesBelow (h : node.isWellNamed = true) : p ∈ filesBelow path node ↔
    ∃ names content, p = Path.joinAll path names ∧ node.at? names = some (.file content) ∧
      ∀ name ∈ names, isSkipped name = false := by
  induction node using Node.induction_on generalizing path with
  | file content =>
    rw [filesBelow, List.mem_singleton]
    constructor
    · rintro rfl
      exact ⟨[], content, rfl, rfl, List.forall_mem_nil _⟩
    · rintro ⟨names, _, rfl, hat, -⟩
      cases names with
      | nil => rfl
      | cons name names => cases hat
  | directory entries ih =>
    obtain ⟨nodup, hentries⟩ := Node.isWellNamed_directory_iff.1 h
    rw [filesBelow_directory, List.mem_flatMap]
    constructor
    · rintro ⟨⟨name, child⟩, he, hp⟩
      obtain ⟨hmem, hname⟩ := mem_searched.1 he
      obtain ⟨names, content, rfl, hat, hnames⟩ := (ih _ hmem (hentries _ hmem).2).1 hp
      refine ⟨name :: names, content, rfl, ?_, List.forall_mem_cons.2 ⟨hname, hnames⟩⟩
      rw [Node.at?, Node.child?, (Node.lookup?_eq_some_iff nodup).2 hmem]
      exact hat
    · rintro ⟨names, content, rfl, hat, hnames⟩
      cases names with
      | nil => cases hat
      | cons name names =>
        rw [Node.at?, Option.bind_eq_some_iff] at hat
        obtain ⟨child, hchild, hat⟩ := hat
        have hmem := (Node.lookup?_eq_some_iff nodup).1 hchild
        obtain ⟨hname, hnames⟩ := List.forall_mem_cons.1 hnames
        refine ⟨(name, child), mem_searched.2 ⟨hmem, hname⟩, ?_⟩
        exact (ih _ hmem (hentries _ hmem).2).2 ⟨names, content, rfl, hat, hnames⟩

end ApiModels.Scan
