import Mathlib.Data.List.Sort
import Mathlib.Logic.Relation
import ApiModels.Proofs.Input
import ApiModels.Proofs.Scan.Order

/-!
# Directories listed in another order

The order in which directories list their entries makes no difference to what stands at a position
(`Node.Relisted.entryAt?_eq`, one listing at a time), and paths are followed and files are read by
what stands at positions alone. A search reports the same paths, and those in their own order, so
it gives the same result, and so does the loading of an input (`FileTree.scan_canonical`).
-/

namespace ApiModels

namespace Node

/-- One directory, at any depth, lists its entries in another order. -/
inductive Relisted : Node → Node → Prop where
  | listing {entries entries' : List (String × Node)} : entries.Perm entries' →
    Relisted (.directory entries) (.directory entries')
  | inside {before after : List (String × Node)} {name : String} {node node' : Node} :
    Relisted node node' → Relisted (.directory (before ++ (name, node) :: after))
      (.directory (before ++ (name, node') :: after))

variable {node node' : Node} {path name : String} {names : List String}
  {entries entries' : List (String × Node)}

theorem Relisted.isWellNamed (h : Relisted node node') (named : node.isWellNamed = true) :
    node'.isWellNamed = true := by
  induction h with
  | listing hperm =>
    obtain ⟨nodup, hentries⟩ := isWellNamed_directory_iff.1 named
    refine isWellNamed_directory_iff.2 ⟨(hperm.map Prod.fst).nodup_iff.1 nodup, fun e he => ?_⟩
    exact hentries e (hperm.mem_iff.2 he)
  | @inside before after name node node' _ ih =>
    obtain ⟨nodup, hentries⟩ := isWellNamed_directory_iff.1 named
    refine isWellNamed_directory_iff.2 ⟨?_, fun e he => ?_⟩
    · rwa [List.map_append, List.map_cons] at nodup ⊢
    · rw [List.forall_mem_append, List.forall_mem_cons] at hentries
      rcases List.mem_append.1 he with he | he
      · exact hentries.1 e he
      · rcases List.mem_cons.1 he with rfl | he
        · exact ⟨hentries.2.1.1, ih hentries.2.1.2⟩
        · exact hentries.2.2 e he

theorem entryAt?_directory_cons (entries : List (String × Node)) (name : String)
    (names : List String) : (Node.directory entries).entryAt? (name :: names) =
      (lookup? entries name).bind (·.entryAt? names) := by
  rw [entryAt?, at?, child?]
  cases lookup? entries name <;> rfl

theorem lookup?_congr (nodup : (entries.map Prod.fst).Nodup)
    (nodup' : (entries'.map Prod.fst).Nodup)
    (h : ∀ child, (name, child) ∈ entries' ↔ (name, child) ∈ entries) :
    lookup? entries' name = lookup? entries name := by
  ext child
  rw [lookup?_eq_some_iff nodup, lookup?_eq_some_iff nodup', h]

/-- A listing is asked for entries by their names. -/
theorem Relisted.entryAt?_eq (h : Relisted node node') (named : node.isWellNamed = true)
    (names : List String) : node'.entryAt? names = node.entryAt? names := by
  induction h generalizing names with
  | listing hperm =>
    cases names with
    | nil => rfl
    | cons first names =>
      have nodup := (isWellNamed_directory_iff.1 named).1
      have nodup' := (hperm.map Prod.fst).nodup_iff.1 nodup
      rw [entryAt?_directory_cons, entryAt?_directory_cons,
        lookup?_congr nodup nodup' fun child => hperm.mem_iff.symm]
  | @inside before after name node node' h ih =>
    cases names with
    | nil => rfl
    | cons first names =>
      obtain ⟨nodup, hentries⟩ := isWellNamed_directory_iff.1 named
      have nodup' := (isWellNamed_directory_iff.1 ((Relisted.inside h).isWellNamed named)).1
      rw [entryAt?_directory_cons, entryAt?_directory_cons]
      -- only behind this name does anything stand in a changed directory
      by_cases hname : first = name
      · subst hname
        rw [(lookup?_eq_some_iff nodup).2 List.mem_append_cons_self,
          (lookup?_eq_some_iff nodup').2 List.mem_append_cons_self, Option.bind_some,
          Option.bind_some, ih (hentries _ List.mem_append_cons_self).2]
      · rw [lookup?_congr nodup nodup' fun child => by simp [hname]]

theorem isWellNamed_of_relisted (h : Relation.ReflTransGen Relisted node node')
    (named : node.isWellNamed = true) : node'.isWellNamed = true := by
  induction h with
  | refl => exact named
  | tail _ hstep ih => exact hstep.isWellNamed ih

/-- What stands at a position does not depend on how directories are listed. -/
theorem entryAt?_of_relisted (h : Relation.ReflTransGen Relisted node node')
    (named : node.isWellNamed = true) (names : List String) :
    node'.entryAt? names = node.entryAt? names := by
  induction h with
  | refl => rfl
  | tail hsteps hstep ih =>
    rw [hstep.entryAt?_eq (isWellNamed_of_relisted hsteps named), ih]

end Node

/-! ## What is read -/

namespace Scan

variable {path : String} {node node' : Node}

/-- The files below a node are known by what stands where. -/
theorem filesBelow_congr (hpath : path ≠ "") (named : node.isWellNamed = true)
    (named' : node'.isWellNamed = true) (h : ∀ names, node'.entryAt? names = node.entryAt? names) :
    filesBelow path node' = filesBelow path node := by
  refine (pairwise_filesBelow hpath named').eq_of_mem_iff (pairwise_filesBelow hpath named)
    fun p => ?_
  simp only [mem_filesBelow named, mem_filesBelow named', ← Node.entryAt?_eq_file_iff, h]

end Scan

namespace FileTree

variable {t t' : FileTree} {path p : String}

/-- The trees are the same but for the order in which directories list their entries. -/
structure Relisted (t t' : FileTree) : Prop where
  here : t'.here = t.here
  root : Relation.ReflTransGen Node.Relisted t.root t'.root

section
variable (hhere : t'.here = t.here)
  (hentries : ∀ position, t'.entryAt? position = t.entryAt? position)
include hhere hentries

theorem locate_congr (path : String) : t'.locate path = t.locate path := by
  have henter : t'.enter = t.enter := by
    funext front part
    rw [enter_eq, enter_eq, hentries, hentries]
  rw [locate, locate, follow, follow, henter, hhere]

theorem readText_congr (path : String) : t'.readText path = t.readText path := by
  rw [readText_eq, readText_eq, locate_congr hhere hentries]
  simp only [hentries]

theorem hasDirectory_congr (path : String) : t'.hasDirectory path = t.hasDirectory path := by
  rw [Bool.eq_iff_iff, hasDirectory_iff, hasDirectory_iff]
  simp only [exists_and_left, ← Node.entryAt?_eq_directory_iff, locate_congr hhere hentries]
  exact exists_congr fun position => and_congr_right fun _ => by rw [← entryAt?, hentries, entryAt?]

theorem scan_congr (named : t.root.isWellNamed = true) (named' : t'.root.isWellNamed = true)
    (path : String) : t'.scan path = t.scan path := by
  have hlocate' := locate_congr hhere hentries path
  cases hlocate : t.locate path with
  | error fault =>
    rw [hlocate] at hlocate'
    simp only [scan, node, hlocate, hlocate', bind, Except.bind]
  | ok position =>
    rw [hlocate] at hlocate'
    have hentry := hentries position
    rw [entryAt?, entryAt?, Node.entryAt?, Node.entryAt?] at hentry
    cases hat : t.root.at? position with
    | none =>
      rw [hat, Option.map_none, Option.map_eq_none_iff] at hentry
      simp only [scan, node, hlocate, hlocate', bind, Except.bind, hat, hentry]
    | some node =>
      rw [hat, Option.map_some, Option.map_eq_some_iff] at hentry
      obtain ⟨node', hat', -⟩ := hentry
      have hbelow (names : List String) : node'.entryAt? names = node.entryAt? names := by
        rw [← entryAt?_append hat', ← entryAt?_append hat, hentries]
      rw [scan_eq hlocate' hat', scan_eq hlocate hat,
        Scan.filesBelow_congr (ne_empty_of_locate hlocate) (Node.isWellNamed_of_at? named hat).1
          (Node.isWellNamed_of_at? named' hat').1 hbelow]

theorem loadInput_congr (named : t.root.isWellNamed = true) (named' : t'.root.isWellNamed = true)
    (path : String) : t'.loadInput path = t.loadInput path := by
  have hread := readText_congr hhere hentries
  have hcatalog : t'.loadCatalogInput = t.loadCatalogInput :=
    funext fun p => loadCatalogInput_congr (hread p)
  have hparse : t'.parseFile = t.parseFile := funext fun p => parseFile_congr (hread p)
  have hload (s : Scan) : t'.loadScan s = t.loadScan s := by
    rw [loadScan, loadScan, hcatalog, hparse]
  simp only [loadInput, hasDirectory_congr hhere hentries, scan_congr hhere hentries named named',
    hload, hparse, hcatalog]

end

/-- Every search reports paths in increasing order of their components, these compared byte by
byte, so each path once; and what it reports does not depend on the order in which directories list
their entries. So which of several declarations of a name is kept does not depend on it either: of
every input the same is loaded, or it fails in the same way. -/
theorem scan_canonical (named : t.root.isWellNamed = true) (path : String) :
    (t.scan path).sources.Pairwise Path.Precedes ∧ (t.scan path).catalogs.Pairwise Path.Precedes ∧
    ∀ t' : FileTree, t.Relisted t' →
      t'.scan path = t.scan path ∧ t'.loadInput path = t.loadInput path := by
  obtain ⟨hsources, hcatalogs⟩ := pairwise_scan named path
  refine ⟨hsources, hcatalogs, fun t' h => ?_⟩
  have named' := Node.isWellNamed_of_relisted h.root named
  have hentries := Node.entryAt?_of_relisted h.root named
  exact ⟨scan_congr h.here hentries named named' path,
    loadInput_congr h.here hentries named named' path⟩

/-- Two catalogs that declare the same type, one of them beside the directory of the other. -/
def listedFiles : FileTree where
  root := .directory [("src", .directory [
    ("a.types.yaml", .file (.text "types:\n- name: Line\n  constants: [FULL]\n")),
    ("a", .directory [
      ("line.rs", .file (.text "struct Line{id:u8}")),
      ("b.types.yaml", .file (.text "types: [name: Line]"))])])]

/-- The same files, with two directories listed in another order. -/
def listedFilesRelisted : FileTree where
  root := .directory [("src", .directory [
    ("a", .directory [
      ("b.types.yaml", .file (.text "types: [name: Line]")),
      ("line.rs", .file (.text "struct Line{id:u8}"))]),
    ("a.types.yaml", .file (.text "types:\n- name: Line\n  constants: [FULL]\n"))])]

theorem relisted_listedFiles : listedFiles.Relisted listedFilesRelisted where
  here := rfl
  root := by
    have houter := Node.Relisted.listing (.swap
      ("a", .directory [
        ("line.rs", .file (.text "struct Line{id:u8}")),
        ("b.types.yaml", .file (.text "types: [name: Line]"))])
      ("a.types.yaml", .file (.text "types:\n- name: Line\n  constants: [FULL]\n")) [])
    have hinner := Node.Relisted.listing (.swap
      ("b.types.yaml", .file (.text "types: [name: Line]"))
      ("line.rs", .file (.text "struct Line{id:u8}")) [])
    refine .head (@Node.Relisted.inside [] [] "src" _ _ houter) (.single ?_)
    exact @Node.Relisted.inside [] [] "src" _ _ (@Node.Relisted.inside [] _ "a" _ _ hinner)

theorem listedFiles_scan_canonical :
    listedFiles.root.isWellNamed = true ∧
    (listedFiles.scan "src").catalogs.Pairwise Path.Precedes ∧
    listedFilesRelisted.scan "src" = listedFiles.scan "src" ∧
    listedFilesRelisted.loadInput "src" = listedFiles.loadInput "src" := by
  have named : listedFiles.root.isWellNamed = true := by decide +kernel
  obtain ⟨-, hcatalogs, hrelisted⟩ := scan_canonical named "src"
  obtain ⟨hscan, hload⟩ := hrelisted _ relisted_listedFiles
  exact ⟨named, hcatalogs, hscan, hload⟩

end FileTree

end ApiModels
