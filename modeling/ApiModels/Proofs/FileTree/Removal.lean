import ApiModels.Proofs.Scan

/-!
# Taking files out of a directory

Files below a directory are taken out by their paths. All directories stay, and so does every other
file (`FileTree.entryAt?_without_append`); a file that stays is read as before, and a search finds
those that stay in the same order as before.
-/

namespace ApiModels

namespace Node

variable {drop : String → Bool} {path name : String} {names : List String} {node : Node}
  {entries : List (String × Node)}

mutual
/-- The node to which the path leads, without the files at and below it that are to be dropped. -/
def without (drop : String → Bool) (path : String) : Node → Option Node
  | .file content => if drop path then none else some (.file content)
  | .directory entries => some (.directory (entriesWithout drop path entries))

/-- The entries of the directory to which the path leads, without such files. -/
def entriesWithout (drop : String → Bool) (path : String) :
    List (String × Node) → List (String × Node)
  | [] => []
  | (name, node) :: rest =>
    match without drop (Path.join path name) node with
    | some kept => (name, kept) :: entriesWithout drop path rest
    | none => entriesWithout drop path rest
end

/-- What becomes of one entry of the directory. -/
def entryWithout (drop : String → Bool) (path : String) (e : String × Node) :
    Option (String × Node) :=
  (without drop (Path.join path e.1) e.2).map fun kept => (e.1, kept)

theorem entriesWithout_eq (drop : String → Bool) (path : String) (entries : List (String × Node)) :
    entriesWithout drop path entries = entries.filterMap (entryWithout drop path) := by
  induction entries with
  | nil => rfl
  | cons e entries ih =>
    rw [entriesWithout, List.filterMap_cons, entryWithout, ih]
    cases without drop (Path.join path e.1) e.2 <;> rfl

theorem fst_of_entryWithout (e e' : String × Node) (h : entryWithout drop path e = some e') :
    e'.1 = e.1 := by
  obtain ⟨kept, -, rfl⟩ := Option.map_eq_some_iff.1 h
  rfl

private theorem flatMap_filterMap {α β γ : Type} (g : α → Option β) (f : β → List γ) (l : List α) :
    (l.filterMap g).flatMap f = l.flatMap fun a => (g a).elim [] f := by
  induction l with
  | nil => rfl
  | cons a l ih =>
    rw [List.filterMap_cons, List.flatMap_cons, ← ih]
    cases g a <;> rfl

/-- A search finds the files that stay, in their order. -/
theorem filesBelow_without (h : node.isWellNamed = true) :
    (node.without drop path).elim [] (Scan.filesBelow path) =
      (Scan.filesBelow path node).filter fun p => !drop p := by
  induction node using Node.induction_on generalizing path with
  | file content =>
    rw [without, Scan.filesBelow, List.filter_cons]
    cases drop path <;> rfl
  | directory entries ih =>
    obtain ⟨nodup, hentries⟩ := isWellNamed_directory_iff.1 h
    rw [without, Option.elim_some, Scan.filesBelow_directory, Scan.filesBelow_directory,
      entriesWithout_eq, Scan.searched_filterMap fst_of_entryWithout nodup, flatMap_filterMap,
      List.filter_flatMap]
    refine List.flatMap_congr fun e he => ?_
    have hmem := (Scan.mem_searched.1 he).1
    rw [← ih e hmem (hentries e hmem).2, entryWithout]
    cases without drop (Path.join path e.1) e.2 <;> rfl

theorem lookup?_entriesWithout (nodup : (entries.map Prod.fst).Nodup) :
    lookup? (entriesWithout drop path entries) name =
      (lookup? entries name).bind (without drop (Path.join path name)) := by
  have nodup' : ((entriesWithout drop path entries).map Prod.fst).Nodup := by
    rw [entriesWithout_eq]
    exact (Scan.map_fst_filterMap_sublist fst_of_entryWithout entries).nodup nodup
  ext kept
  rw [lookup?_eq_some_iff nodup', entriesWithout_eq, List.mem_filterMap, Option.bind_eq_some_iff]
  constructor
  · rintro ⟨e, hmem, he⟩
    obtain ⟨_, hkept, heq⟩ := Option.map_eq_some_iff.1 he
    cases heq
    exact ⟨e.2, (lookup?_eq_some_iff nodup).2 hmem, hkept⟩
  · rintro ⟨node, hnode, hkept⟩
    refine ⟨(name, node), (lookup?_eq_some_iff nodup).1 hnode, ?_⟩
    rw [entryWithout, hkept]
    rfl

/-- What stands at a position below is there still, without what is to be dropped of it. -/
theorem bind_at?_without (h : node.isWellNamed = true) :
    (node.without drop path).bind (·.at? names) =
      (node.at? names).bind (without drop (Path.joinAll path names)) := by
  induction names generalizing node path with
  | nil =>
    simp only [at?, Option.bind_some, Path.joinAll_nil]
    cases without drop path node <;> rfl
  | cons name names ih =>
    cases node with
    | file content =>
      rw [without]
      cases drop path <;> rfl
    | directory entries =>
      obtain ⟨nodup, hentries⟩ := isWellNamed_directory_iff.1 h
      rw [without, Option.bind_some, at?, child?, lookup?_entriesWithout nodup, at?, child?]
      cases hchild : lookup? entries name with
      | none => rfl
      | some child =>
        have hmem := (lookup?_eq_some_iff nodup).1 hchild
        exact ih (hentries _ hmem).2

end Node

namespace FileTree

variable {t : FileTree} {drop : String → Bool} {path p : String} {position q : List String}
  {entries : List (String × Node)}

/-- The tree without the files to be dropped, of those below the directory to which the path leads;
files are named by their paths. -/
def without (t : FileTree) (drop : String → Bool) (path : String) : FileTree :=
  match t.locate path with
  | .error _ => t
  | .ok position =>
    match (t.root.at? position).bind (Node.without drop path) with
    | some node => { t with root := .put node position t.root }
    | none => t

theorem hasDirectory_iff : t.hasDirectory path = true ↔
    ∃ position entries, t.locate path = .ok position ∧
      t.root.at? position = some (.directory entries) := by
  rw [hasDirectory, node]
  cases hlocate : t.locate path with
  | error fault =>
    constructor
    · intro h
      cases h
    · rintro ⟨_, _, h, -⟩
      cases h
  | ok position =>
    simp only [bind, Except.bind]
    constructor
    · intro h
      split at h
      · rename_i node hat
        cases node with
        | file content => cases h
        | directory entries => exact ⟨position, entries, rfl, hat⟩
      · cases h
    · rintro ⟨_, entries, h, hat⟩
      cases h
      rw [hat]
      rfl

theorem scan_eq {node : Node} (hlocate : t.locate path = .ok position)
    (hat : t.root.at? position = some node) : t.scan path =
      { sources := (Scan.filesBelow path node).filter Scan.isSourceFile
        catalogs := (Scan.filesBelow path node).filter fun p =>
          !Scan.isSourceFile p && Scan.isCatalogFile p } := by
  simp only [scan, FileTree.node, hlocate, bind, Except.bind, hat]

theorem here_without : (t.without drop path).here = t.here := by
  rw [without]
  split
  · rfl
  · split <;> rfl

section
variable (hlocate : t.locate path = .ok position)
  (hat : t.root.at? position = some (.directory entries))
include hlocate hat

theorem without_eq : t.without drop path = { t with
    root := .put (.directory (Node.entriesWithout drop path entries)) position t.root } := by
  simp only [without, hlocate, hat, Option.bind_some, Node.without]

omit hlocate in
theorem hasPlace : t.root.HasPlace position := by
  rcases List.eq_nil_or_concat position with rfl | ⟨front, name, rfl⟩
  · exact .inl rfl
  · rw [List.concat_eq_append] at hat ⊢
    have hthere : (t.root.entryAt? (front ++ [name])).isSome = true := by
      rw [Node.entryAt?, hat]
      rfl
    refine .inr ?_
    rw [List.dropLast_concat]
    exact Node.entryAt?_of_append hthere

theorem at?_without : (t.without drop path).root.at? position =
    some (.directory (Node.entriesWithout drop path entries)) := by
  have hput : (Node.put (.directory (Node.entriesWithout drop path entries)) position t.root).at?
      (position ++ []) = _ := Node.at?_put (hasPlace hat)
  rw [List.append_nil] at hput
  rw [without_eq hlocate hat]
  exact hput

/-- Where nothing below the directory is concerned the tree is as it was. -/
theorem entryAt?_without_elsewhere (hq : ¬position <+: q) :
    (t.without drop path).entryAt? q = t.entryAt? q := by
  rw [without_eq hlocate hat]
  exact Node.entryAt?_put_elsewhere (hasPlace hat) hq

/-- Below the directory the files that are to be dropped are gone, and only these. -/
theorem entryAt?_without_append (named : t.root.isWellNamed = true) (names : List String) :
    (t.without drop path).entryAt? (position ++ names) = (t.entryAt? (position ++ names)).filter
      fun entry => entry == .directory || !drop (Path.joinAll path names) := by
  have hbelow : (Node.directory (Node.entriesWithout drop path entries)).at? names =
      ((Node.directory entries).at? names).bind (Node.without drop (Path.joinAll path names)) :=
    Node.bind_at?_without (Node.isWellNamed_of_at? named hat).1
  rw [without_eq hlocate hat, entryAt?, entryAt?, Node.entryAt?, Node.entryAt?,
    Node.at?_put (hasPlace hat), hbelow, Node.at?_append, hat, Option.bind_some]
  cases (Node.directory entries).at? names with
  | none => rfl
  | some node =>
    cases node with
    | directory entries => rfl
    | file content =>
      rw [Option.bind_some, Node.without]
      cases hdrop : drop (Path.joinAll path names) with
      | true => simp [Node.entry, Option.filter]
      | false => simp [Node.entry, Option.filter]

theorem entryAt?_without_of_directory (named : t.root.isWellNamed = true)
    (h : t.entryAt? q = some .directory) : (t.without drop path).entryAt? q = some .directory := by
  by_cases hq : position <+: q
  · obtain ⟨names, rfl⟩ := hq
    rw [entryAt?_without_append hlocate hat named, h]
    rfl
  · rw [entryAt?_without_elsewhere hlocate hat hq, h]

theorem locate_without (named : t.root.isWellNamed = true) :
    (t.without drop path).locate path = .ok position := by
  have hposition : t.entryAt? position = some .directory := by
    rw [entryAt?, Node.entryAt?, hat]
    rfl
  have hkept (q : List String) (hq : t.entryAt? q = some .directory) :
      (t.without drop path).entryAt? q = some .directory :=
    entryAt?_without_of_directory hlocate hat named hq
  refine locate_mono hkept here_without hlocate ?_
  rw [hkept position hposition]
  rfl

end

variable (named : t.root.isWellNamed = true) (hdirectory : t.hasDirectory path = true)
include named hdirectory

theorem hasDirectory_without : (t.without drop path).hasDirectory path = true := by
  obtain ⟨position, entries, hlocate, hat⟩ := hasDirectory_iff.1 hdirectory
  exact hasDirectory_iff.2
    ⟨position, _, locate_without hlocate hat named, at?_without hlocate hat⟩

/-- A search finds what is left. -/
theorem scan_without : (t.without drop path).scan path =
    { sources := (t.scan path).sources.filter fun p => !drop p
      catalogs := (t.scan path).catalogs.filter fun p => !drop p } := by
  obtain ⟨position, entries, hlocate, hat⟩ := hasDirectory_iff.1 hdirectory
  have hfiles : Scan.filesBelow path (.directory (Node.entriesWithout drop path entries)) =
      (Scan.filesBelow path (.directory entries)).filter fun p => !drop p :=
    Node.filesBelow_without (Node.isWellNamed_of_at? named hat).1
  rw [scan_eq (locate_without hlocate hat named) (at?_without hlocate hat), scan_eq hlocate hat,
    hfiles]
  congr 1
  · exact List.filter_comm _ _ _
  · exact List.filter_comm _ _ _

/-- A file that is found and stays is read as before. -/
theorem readText_without (hp : p ∈ (t.scan path).sources ∨ p ∈ (t.scan path).catalogs)
    (hdrop : drop p = false) : (t.without drop path).readText p = t.readText p := by
  obtain ⟨position, entries, hlocate, hat⟩ := hasDirectory_iff.1 hdirectory
  have hfile : p ∈ Scan.filesBelow path (.directory entries) := by
    rw [scan_eq hlocate hat] at hp
    exact hp.elim (fun h => (List.mem_filter.1 h).1) fun h => (List.mem_filter.1 h).1
  obtain ⟨names, content, rfl, hnode, -⟩ :=
    (Scan.mem_filesBelow (Node.isWellNamed_of_at? named hat).1).1 hfile
  have hat' : t.root.at? (position ++ names) = some (.file content) := by
    rw [Node.at?_append, hat]
    exact hnode
  have hbefore : t.entryAt? (position ++ names) = some (.file content) :=
    Node.entryAt?_eq_file_iff.2 hat'
  have hafter : (t.without drop path).entryAt? (position ++ names) = some (.file content) := by
    rw [entryAt?_without_append hlocate hat named, hbefore, hdrop]
    rfl
  have hnames (name : String) (hname : name ∈ names) : Node.isName name = true :=
    (Node.isWellNamed_of_at? named hat').2 name (List.mem_append_right position hname)
  rw [readText_joinAll hlocate hnames hbefore,
    readText_joinAll (locate_without hlocate hat named) hnames hafter]

end FileTree

end ApiModels
