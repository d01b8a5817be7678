import ApiModels.Proofs.FileTree.Paths
import ApiModels.Proofs.KeyedList
import ApiModels.Proofs.Path

/-!
# What is below a directory

Where every entry of a directory has a name of its own, a node is found below a directory by the
names that lead to it. A file there is read by the path that a search makes of these names, unless
the path or one of the names is too long; what the tree holds besides does not matter
(`FileTree.readText_joinAll`).
-/

namespace ApiModels

namespace Node

variable {node child : Node} {name : String} {names : List String} {entries : List (String × Node)}

/-- Whether a text is the name of an entry. -/
def isName (name : String) : Bool := !FileTree.isStep name && !name.toList.contains '/'

mutual
/-- Whether each directory names its entries, no two alike. -/
def isWellNamed : Node → Bool
  | .file _ => true
  | .directory entries => decide (entries.map Prod.fst).Nodup && areWellNamed entries

/-- Whether these are names of entries, and the entries themselves name theirs. -/
def areWellNamed : List (String × Node) → Bool
  | [] => true
  | (name, node) :: rest => isName name && isWellNamed node && areWellNamed rest
end

/-- Induction on the depth of a node. -/
@[elab_as_elim]
theorem induction_on {motive : Node → Prop} (file : ∀ content, motive (.file content))
    (directory : ∀ entries, (∀ e ∈ entries, motive e.2) → motive (.directory entries))
    (node : Node) : motive node := by
  refine @Node.rec motive (fun entries => ∀ e ∈ entries, motive e.2) (fun e => motive e.2)
    file directory ?_ ?_ ?_ node
  · intro e he
    cases he
  · intro head tail hhead htail e he
    rcases List.mem_cons.1 he with rfl | he
    · exact hhead
    · exact htail e he
  · intro name node hnode
    exact hnode

theorem areWellNamed_iff : areWellNamed entries = true ↔
    ∀ e ∈ entries, isName e.1 = true ∧ e.2.isWellNamed = true := by
  induction entries with
  | nil => simp [areWellNamed]
  | cons e entries ih => simp [areWellNamed, ih]

theorem isWellNamed_directory_iff : (Node.directory entries).isWellNamed = true ↔
    (entries.map Prod.fst).Nodup ∧ ∀ e ∈ entries, isName e.1 = true ∧ e.2.isWellNamed = true := by
  rw [isWellNamed, Bool.and_eq_true, decide_eq_true_iff, areWellNamed_iff]

theorem lookup?_eq_some_iff (nodup : (entries.map Prod.fst).Nodup) :
    lookup? entries name = some child ↔ (name, child) ∈ entries := by
  have hfind (e : String × Node) :
      entries.find? (·.1 == name) = some e ↔ e ∈ entries ∧ e.1 = name :=
    KeyedList.find?_eq_some_iff (r := ⟨entries, nodup⟩)
  rw [lookup?, Option.map_eq_some_iff]
  constructor
  · rintro ⟨e, he, rfl⟩
    obtain ⟨hmem, rfl⟩ := (hfind e).1 he
    exact hmem
  · intro hmem
    exact ⟨_, (hfind _).2 ⟨hmem, rfl⟩, rfl⟩

theorem isWellNamed_of_at? (h : node.isWellNamed = true) (hat : node.at? names = some child) :
    child.isWellNamed = true ∧ ∀ name ∈ names, isName name = true := by
  induction names generalizing node with
  | nil =>
    cases hat
    exact ⟨h, List.forall_mem_nil _⟩
  | cons name names ih =>
    rw [at?, Option.bind_eq_some_iff] at hat
    obtain ⟨next, hnext, hat⟩ := hat
    cases node with
    | file content => cases hnext
    | directory entries =>
      obtain ⟨nodup, hentries⟩ := isWellNamed_directory_iff.1 h
      obtain ⟨hname, hchild⟩ := hentries _ ((lookup?_eq_some_iff nodup).1 hnext)
      obtain ⟨hnode, hnames⟩ := ih hchild hat
      exact ⟨hnode, List.forall_mem_cons.2 ⟨hname, hnames⟩⟩

theorem not_isStep_of_isName (h : isName name = true) : FileTree.isStep name = false := by
  rw [isName, Bool.and_eq_true] at h
  simpa using h.1

theorem slash_not_mem_of_isName (h : isName name = true) : '/' ∉ name.toList := by
  rw [isName, Bool.and_eq_true] at h
  simpa using h.2

end Node

namespace FileTree

variable {t : FileTree} {path name : String} {front position : List String} {names : List String}
  {content : Content}

theorem follow_join (hpath : path ≠ "") (hname : '/' ∉ name.toList) :
    t.follow (Path.join path name) (Path.parts (Path.join path name)) =
      t.follow path (Path.parts path) >>= fun position => t.enter position name := by
  obtain ⟨front, hjoin, hparts | hparts⟩ := Path.exists_parts_join hpath hname
  · rw [follow, follow, Path.isAbsolute_join hpath, hjoin, hparts, List.foldlM_append]
    simp only [List.foldlM_cons, List.foldlM_nil, bind_pure]
  · rw [follow, follow, Path.isAbsolute_join hpath, hjoin, hparts, List.foldlM_append,
      List.foldlM_append]
    simp only [List.foldlM_cons, List.foldlM_nil, bind_pure, bind_assoc]
    -- an empty part asks for a directory, and so does the name
    congr 1
    funext position
    rw [enter_eq t position "", enter_eq t position name]
    split
    · rfl
    · rfl
    · rename_i hposition
      simp only [true_or, if_true, bind, Except.bind]
      rw [enter_eq, hposition]

theorem follow_joinAll (hpath : path ≠ "") (hnames : ∀ name ∈ names, '/' ∉ name.toList) :
    t.follow (Path.joinAll path names) (Path.parts (Path.joinAll path names)) =
      t.follow path (Path.parts path) >>= fun position => names.foldlM t.enter position := by
  induction names generalizing path with
  | nil => simp only [Path.joinAll_nil, List.foldlM_nil, bind_pure]
  | cons name names ih =>
    rw [List.forall_mem_cons] at hnames
    rw [Path.joinAll_cons, ih (Path.join_ne_empty hpath) hnames.2, follow_join hpath hnames.1,
      bind_assoc]
    simp only [List.foldlM_cons]

/-- Names lead on to what is there, if they are not too long. -/
theorem foldlM_enter_of_isSome (hthere : (t.entryAt? (front ++ names)).isSome = true)
    (hnames : ∀ name ∈ names, isStep name = false) : names.foldlM t.enter front =
      (forM names checkName >>= fun _ => .ok (front ++ names)) := by
  induction names generalizing front with
  | nil => rw [List.append_nil]; rfl
  | cons name names ih =>
    rw [List.forall_mem_cons] at hnames
    have hfront : t.entryAt? front = some .directory := Node.entryAt?_of_append hthere
    rw [List.append_cons] at hthere ⊢
    have hnext : (t.entryAt? (front ++ [name])).isSome = true := by
      cases names with
      | nil => rwa [List.append_nil] at hthere
      | cons next names => exact Option.isSome_of_eq_some (Node.entryAt?_of_append hthere)
    have henter : t.enter front name = checkName name >>= fun _ => .ok (front ++ [name]) := by
      have hstep : ¬(name = "" ∨ name = ".") ∧ name ≠ ".." := by simpa [isStep] using hnames.1
      rw [enter_eq, hfront]
      simp only [hstep.1, if_false, hstep.2, hnext, if_true]
      cases checkName name <;> rfl
    rw [List.foldlM_cons, henter, List.forM_cons, bind_assoc, bind_assoc]
    congr 1
    funext _
    exact ih hthere hnames.2

theorem ne_empty_of_locate (h : t.locate path = .ok position) : path ≠ "" := by
  rintro rfl
  cases h

theorem locate_joinAll (h : t.locate path = .ok position)
    (hnames : ∀ name ∈ names, Node.isName name = true)
    (hthere : (t.entryAt? (position ++ names)).isSome = true) :
    t.locate (Path.joinAll path names) =
      (checkPath (Path.joinAll path names) >>= fun _ =>
        forM names checkName >>= fun _ => .ok (position ++ names)) := by
  obtain ⟨_, -, hfollow⟩ := bind_eq_ok_iff.1 h
  have hslash (name : String) (hname : name ∈ names) : '/' ∉ name.toList :=
    Node.slash_not_mem_of_isName (hnames name hname)
  have hstep (name : String) (hname : name ∈ names) : isStep name = false :=
    Node.not_isStep_of_isName (hnames name hname)
  rw [locate, follow_joinAll (ne_empty_of_locate h) hslash, hfollow]
  congr 1
  funext _
  exact foldlM_enter_of_isSome hthere hstep

/-- What a file with this content gives to a reader. -/
def textOf : Content → Except FileFault String
  | .text text => .ok text
  | .bytes => .error .notText

/-- A file below a directory is read by the path that leads to it from there. -/
theorem readText_joinAll (h : t.locate path = .ok position)
    (hnames : ∀ name ∈ names, Node.isName name = true)
    (hfile : t.entryAt? (position ++ names) = some (.file content)) :
    t.readText (Path.joinAll path names) =
      (checkPath (Path.joinAll path names) >>= fun _ =>
        forM names checkName >>= fun _ => textOf content) := by
  rw [readText_eq, locate_joinAll h hnames (Option.isSome_of_eq_some hfile), bind_assoc]
  congr 1
  funext _
  rw [bind_assoc]
  congr 1
  funext _
  simp only [bind, Except.bind]
  rw [hfile]
  cases content <;> rfl

end FileTree

end ApiModels
