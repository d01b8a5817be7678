import ApiModels.Proofs.FileTree.Removal
import ApiModels.Proofs.Path.Components
import ApiModels.Proofs.Text.ByteOrder

/-!
# The order of a search

Paths are ordered by their components, and these by their bytes (`Path.Precedes`). A search reports
paths in this order (`FileTree.pairwise_scan`), and so each once: below a directory, the paths that
go on with a smaller name come before those that go on with a greater one, whether the names are
those of files or of directories.
-/

namespace ApiModels

namespace Path

variable {path a b : String} {as bs : List String}

/-- The components of `p` come before those of `q`, compared by their bytes. -/
def Precedes (p q : String) : Prop :=
  (components p).map Text.bytes < (components q).map Text.bytes

instance : Std.Irrefl Precedes := ⟨fun _ => List.lt_irrefl _⟩

instance : Std.Antisymm Precedes := ⟨fun _ _ hpq hqp => (List.lt_asymm hpq hqp).elim⟩

theorem precedes_joinAll (hpath : path ≠ "") (hlt : a < b)
    (has : ∀ name ∈ a :: as, Node.isName name = true)
    (hbs : ∀ name ∈ b :: bs, Node.isName name = true) :
    Precedes (joinAll path (a :: as)) (joinAll path (b :: bs)) := by
  rw [Precedes, components_joinAll hpath has, components_joinAll hpath hbs, List.map_append,
    List.map_append, List.map_cons, List.map_cons]
  exact List.append_left_lt (List.cons_lt_cons_iff.2 (.inl (Text.bytes_lt_iff.2 hlt)))

/-- A shorter name comes first, whatever follows the names; as texts these paths stand the other
way. -/
example : Precedes "src/a/b.rs" "src/a-b.rs" ∧ "src/a-b.rs" < "src/a/b.rs" := by
  rw [Precedes]
  decide +kernel

end Path

namespace Scan

variable {α : Type} {path : String} {node : Node} {l : List (String × α)}

theorem pairwise_searched (nodup : (l.map Prod.fst).Nodup) :
    (searched l).Pairwise fun a b => a.1 < b.1 := by
  have nodup' : ((searched l).map Prod.fst).Nodup := by
    refine ((byName_perm _).map Prod.fst).nodup_iff.2 ?_
    exact (List.filter_sublist.map Prod.fst).nodup nodup
  refine ((pairwise_byName _).and (List.pairwise_map.1 nodup')).imp fun h => ?_
  exact lt_of_le_of_ne h.1 h.2

/-- The files below a directory are found in the order of their paths. -/
theorem pairwise_filesBelow (hpath : path ≠ "") (h : node.isWellNamed = true) :
    (filesBelow path node).Pairwise Path.Precedes := by
  induction node using Node.induction_on generalizing path with
  | file content =>
    rw [filesBelow]
    exact List.pairwise_singleton _ _
  | directory entries ih =>
    obtain ⟨nodup, hentries⟩ := Node.isWellNamed_directory_iff.1 h
    rw [filesBelow_directory, List.pairwise_flatMap]
    -- below one entry by the induction, below two entries by the names of these
    constructor
    · intro e he
      have hmem := (mem_searched.1 he).1
      exact ih e hmem (Path.join_ne_empty hpath) (hentries e hmem).2
    · refine (pairwise_searched nodup).imp_of_mem fun {a b} ha hb hlt p hp q hq => ?_
      have ha := hentries a (mem_searched.1 ha).1
      have hb := hentries b (mem_searched.1 hb).1
      obtain ⟨as, _, rfl, hat, -⟩ := (mem_filesBelow ha.2).1 hp
      obtain ⟨bs, _, rfl, hbt, -⟩ := (mem_filesBelow hb.2).1 hq
      exact Path.precedes_joinAll hpath hlt
        (List.forall_mem_cons.2 ⟨ha.1, (Node.isWellNamed_of_at? ha.2 hat).2⟩)
        (List.forall_mem_cons.2 ⟨hb.1, (Node.isWellNamed_of_at? hb.2 hbt).2⟩)

end Scan

namespace FileTree

variable {t : FileTree} {path : String} {node : Node}

theorem node_eq_ok_iff : t.node path = .ok node ↔
    ∃ position, t.locate path = .ok position ∧ t.root.at? position = some node := by
  rw [FileTree.node, bind_eq_ok_iff]
  refine exists_congr fun position => and_congr_right fun _ => ?_
  cases t.root.at? position <;> simp

theorem entryAt?_append {position : List String} (hat : t.root.at? position = some node)
    (names : List String) : t.entryAt? (position ++ names) = node.entryAt? names := by
  rw [entryAt?, Node.entryAt?, Node.at?_append, hat]
  rfl

/-- Whatever a path leads to, a search of it reports paths in their order. -/
theorem pairwise_scan (named : t.root.isWellNamed = true) (path : String) :
    (t.scan path).sources.Pairwise Path.Precedes ∧
      (t.scan path).catalogs.Pairwise Path.Precedes := by
  rw [scan]
  split
  · exact ⟨.nil, .nil⟩
  · rename_i node hnode
    obtain ⟨position, hlocate, hat⟩ := node_eq_ok_iff.1 hnode
    have hfiles := Scan.pairwise_filesBelow (ne_empty_of_locate hlocate)
      (Node.isWellNamed_of_at? named hat).1
    exact ⟨hfiles.filter _, hfiles.filter _⟩

end FileTree

end ApiModels
