import ApiModels.Proofs.Scan.Order

/-!
# What a search reports

Below a directory, a search reports the files with the name of a source file or of a catalog, each
once and in one list only, that stand in no directory to be passed over (`FileTree.scan_exact`).
What is passed over by its name is not asked for its kind, so files whose own names begin with a
dot are missing as well (`FileTree.hidden_order_missed`).
-/

namespace ApiModels

namespace Scan

variable {path name : String}

/-- The name has the extension of source files. -/
def IsSourceName (name : String) : Prop := ∃ stem, stem ≠ "" ∧ name = stem ++ ".rs"

/-- The name has one of the endings of catalogs. -/
def IsCatalogName (name : String) : Prop :=
  ∃ stem, name = stem ++ ".types.yaml" ∨ name = stem ++ ".types.yml" ∨ name = stem ++ ".types.json"

/-- The name begins with a dot. -/
def IsHiddenName (name : String) : Prop := ['.'] <+: name.toList

theorem isSkipped_eq_false_iff : isSkipped name = false ↔ ¬IsHiddenName name ∧ name ≠ "target" := by
  have hhead : name.toList.head? = some '.' ↔ IsHiddenName name := by
    rw [IsHiddenName]
    cases name.toList with
    | nil => simp
    | cons c cs => simp [List.cons_prefix_cons, eq_comm]
  rw [isSkipped, Bool.or_eq_false_iff, beq_eq_false_iff_ne, beq_eq_false_iff_ne, Ne, hhead]

theorem isSourceFile_join (hpath : path ≠ "") (hname : Node.isName name = true) :
    isSourceFile (Path.join path name) = true ↔ IsSourceName name := by
  rw [isSourceFile, beq_iff_eq, Path.extension?, Path.name?_join hpath hname, Option.bind_some,
    Path.extensionOf?_eq_some_iff]
  simp only [String.append_assoc]
  exact and_iff_right (by decide)

theorem toList_isSuffixOf_iff {ending : String} :
    ending.toList.isSuffixOf name.toList = true ↔ ∃ stem, name = stem ++ ending := by
  rw [List.isSuffixOf_iff_suffix]
  constructor
  · rintro ⟨stem, hname⟩
    exact ⟨.ofList stem, String.toList_injective (by simp [hname])⟩
  · rintro ⟨stem, rfl⟩
    rw [String.toList_append]
    exact List.suffix_append _ _

theorem isCatalogFile_join (hpath : path ≠ "") (hname : Node.isName name = true) :
    isCatalogFile (Path.join path name) = true ↔ IsCatalogName name := by
  rw [isCatalogFile, Path.name?_join hpath hname, Option.any_some, List.any_eq_true, IsCatalogName]
  simp only [toList_isSuffixOf_iff, catalogEndings, List.mem_cons, List.not_mem_nil, or_false,
    exists_eq_or_imp, exists_eq_left, exists_or]

theorem IsSourceName.getLast?_eq (h : IsSourceName name) : name.toList.getLast? = some 's' := by
  obtain ⟨stem, -, rfl⟩ := h
  simp

theorem IsCatalogName.getLast?_eq (h : IsCatalogName name) :
    name.toList.getLast? = some 'l' ∨ name.toList.getLast? = some 'n' := by
  obtain ⟨stem, rfl | rfl | rfl⟩ := h <;> simp

theorem IsSourceName.not_isCatalogName (h : IsSourceName name) : ¬IsCatalogName name := by
  intro hcatalog
  have hlast := hcatalog.getLast?_eq
  rw [h.getLast?_eq] at hlast
  simp at hlast

theorem not_isSourceName_target : ¬IsSourceName "target" := by
  intro h
  exact absurd h.getLast?_eq (by decide)

theorem not_isCatalogName_target : ¬IsCatalogName "target" := by
  intro h
  exact absurd h.getLast?_eq (by decide)

end Scan

namespace FileTree

open Scan

variable {t : FileTree} {path p : String} {position way : List String} {name : String} {node : Node}

/-- A file below the directory at a position: the names in `way` lead to the directory that holds
it, and no directory on the way is passed over. -/
structure Offers (t : FileTree) (position way : List String) (name : String) : Prop where
  file : ∃ content, t.entryAt? (position ++ (way ++ [name])) = some (.file content)
  way_searched : ∀ d ∈ way, ¬IsHiddenName d ∧ d ≠ "target"

section
variable (named : t.root.isWellNamed = true)
include named

theorem Offers.isName (h : t.Offers position way name) :
    ∀ n ∈ way ++ [name], Node.isName n = true := by
  obtain ⟨⟨content, hcontent⟩, -⟩ := h
  intro n hn
  have hnames := (Node.isWellNamed_of_at? named (Node.entryAt?_eq_file_iff.1 hcontent)).2
  exact hnames n (List.mem_append_right position hn)

/-- The files found below a directory, by the names that lead to them. -/
theorem mem_filesBelow_iff (hdirectory : t.entryAt? position = some .directory)
    (hat : t.root.at? position = some node) :
    p ∈ filesBelow path node ↔ ∃ way name, p = Path.joinAll path (way ++ [name]) ∧
      t.Offers position way name ∧ isSkipped name = false := by
  have hfile (names : List String) (content : Content) :
      node.at? names = some (.file content) ↔
        t.entryAt? (position ++ names) = some (.file content) := by
    rw [entryAt?_append hat, Node.entryAt?_eq_file_iff]
  rw [mem_filesBelow (Node.isWellNamed_of_at? named hat).1]
  constructor
  · rintro ⟨names, content, rfl, hcontent, hnames⟩
    rw [hfile] at hcontent
    rcases List.eq_nil_or_concat names with rfl | ⟨way, name, rfl⟩
    · rw [List.append_nil, hdirectory] at hcontent
      cases hcontent
    · rw [List.concat_eq_append, List.forall_mem_append] at *
      refine ⟨way, name, rfl, ⟨⟨content, hcontent⟩, fun d hd => ?_⟩, hnames.2 name (by simp)⟩
      exact isSkipped_eq_false_iff.1 (hnames.1 d hd)
  · rintro ⟨way, name, rfl, ⟨⟨content, hcontent⟩, hway⟩, hname⟩
    refine ⟨way ++ [name], content, rfl, (hfile _ _).2 hcontent, List.forall_mem_append.2 ⟨?_, ?_⟩⟩
    · exact fun d hd => isSkipped_eq_false_iff.2 (hway d hd)
    · simpa using hname

/-- A file that is offered is found unless it is passed over by its own name. -/
theorem Offers.mem_filesBelow_iff (h : t.Offers position way name) (hpath : path ≠ "")
    (hdirectory : t.entryAt? position = some .directory) (hat : t.root.at? position = some node) :
    Path.joinAll path (way ++ [name]) ∈ filesBelow path node ↔ isSkipped name = false := by
  rw [FileTree.mem_filesBelow_iff named hdirectory hat]
  constructor
  · rintro ⟨way', name', heq, hoffers, hname⟩
    rw [Path.joinAll_inj hpath (h.isName named) (hoffers.isName named)] at heq
    obtain ⟨-, rfl⟩ := List.append_singleton_inj.1 heq
    exact hname
  · exact fun hname => ⟨way, name, rfl, h, hname⟩

/-- Of the files that are offered, those of one kind are kept unless they have hidden names. -/
theorem Offers.mem_filter_iff (h : t.Offers position way name) (hpath : path ≠ "")
    (hdirectory : t.entryAt? position = some .directory) (hat : t.root.at? position = some node)
    {accepts : String → Bool} {Kind : String → Prop} (htarget : ¬Kind "target")
    (haccepts : ∀ {path name}, path ≠ "" → Node.isName name = true →
      (accepts (Path.join path name) = true ↔ Kind name)) :
    Path.joinAll path (way ++ [name]) ∈ (filesBelow path node).filter accepts ↔
      Kind name ∧ ¬IsHiddenName name := by
  have hname : Node.isName name = true := h.isName named name (by simp)
  rw [List.mem_filter, h.mem_filesBelow_iff named hpath hdirectory hat, isSkipped_eq_false_iff,
    Path.joinAll_append_singleton, haccepts (Path.joinAll_ne_empty hpath way) hname]
  constructor
  · rintro ⟨⟨hhidden, -⟩, hkind⟩
    exact ⟨hkind, hhidden⟩
  · rintro ⟨hkind, hhidden⟩
    exact ⟨⟨hhidden, fun heq => htarget (heq ▸ hkind)⟩, hkind⟩

end

/-- Of the files below a directory that stand in no directory to be passed over, a search reports
those with the name of a source file or of a catalog, each once in the list of its kind, but for
those whose own names begin with a dot. It reports nothing else, no path in both lists, and no
warning. -/
theorem scan_exact (named : t.root.isWellNamed = true) (hlocate : t.locate path = .ok position)
    (hdirectory : t.entryAt? position = some .directory) :
    (∀ way name, t.Offers position way name →
      (Path.joinAll path (way ++ [name]) ∈ (t.scan path).sources ↔
        IsSourceName name ∧ ¬IsHiddenName name) ∧
      (Path.joinAll path (way ++ [name]) ∈ (t.scan path).catalogs ↔
        IsCatalogName name ∧ ¬IsHiddenName name)) ∧
    (∀ p, p ∈ (t.scan path).sources ∨ p ∈ (t.scan path).catalogs →
      ∃ way name, p = Path.joinAll path (way ++ [name]) ∧ t.Offers position way name) ∧
    (t.scan path).sources.Nodup ∧ (t.scan path).catalogs.Nodup ∧
    (∀ p ∈ (t.scan path).sources, p ∉ (t.scan path).catalogs) ∧
    (t.scan path).warnings = [] := by
  have hpath : path ≠ "" := ne_empty_of_locate hlocate
  obtain ⟨hsources, hcatalogs⟩ := pairwise_scan named path
  obtain ⟨node, hat, -⟩ := Option.map_eq_some_iff.1 hdirectory
  have hscan := scan_eq hlocate hat
  refine ⟨fun way name h => ⟨?_, ?_⟩, fun p hp => ?_, hsources.nodup, hcatalogs.nodup,
    fun p hp hp' => ?_, congrArg Scan.warnings hscan⟩
  · rw [hscan]
    exact h.mem_filter_iff named hpath hdirectory hat not_isSourceName_target isSourceFile_join
  · rw [hscan]
    refine h.mem_filter_iff named hpath hdirectory hat not_isCatalogName_target
      fun hpath hname => ?_
    rw [Bool.and_eq_true, Bool.not_eq_true', isCatalogFile_join hpath hname, ← Bool.not_eq_true,
      isSourceFile_join hpath hname]
    exact and_iff_right_of_imp fun hcatalog hsource => hsource.not_isCatalogName hcatalog
  · rw [hscan] at hp
    have hfound : p ∈ filesBelow path node :=
      hp.elim (fun h => List.mem_of_mem_filter h) fun h => List.mem_of_mem_filter h
    obtain ⟨way, name, rfl, hoffers, -⟩ := (mem_filesBelow_iff named hdirectory hat).1 hfound
    exact ⟨way, name, rfl, hoffers⟩
  · rw [hscan] at hp hp'
    simp [(List.mem_filter.1 hp).2] at hp'

/-- Files and directories of which some have names to be passed over, below a directory that has
such a name itself. -/
def targetFiles : FileTree where
  root := .directory [("target", .directory [
    ("b.rs", .file (.text "")),
    (".draft.rs", .file (.text "")),
    ("target", .directory [("x.rs", .file (.text ""))]),
    ("m.rs", .directory [("a.types.yml", .file .bytes)])])]

theorem targetFiles_scan_exact :
    "target/b.rs" ∈ (targetFiles.scan "target").sources ∧
    "target/.draft.rs" ∉ (targetFiles.scan "target").sources ∧
    "target/target/x.rs" ∉ (targetFiles.scan "target").sources ∧
    "target/m.rs/a.types.yml" ∈ (targetFiles.scan "target").catalogs ∧
    (targetFiles.scan "target").warnings = [] := by
  have named : targetFiles.root.isWellNamed = true := by decide +kernel
  have hlocate : targetFiles.locate "target" = .ok ["target"] :=
    eq_ok_of_toOption (by decide +kernel)
  obtain ⟨hoffered, hall, -, -, -, hwarnings⟩ := scan_exact named hlocate (by decide +kernel)
  refine ⟨?_, ?_, ?_, ?_, hwarnings⟩
  · have hfile : targetFiles.Offers ["target"] [] "b.rs" :=
      ⟨⟨.text "", by decide +kernel⟩, List.forall_mem_nil _⟩
    exact (hoffered _ _ hfile).1.2 ⟨⟨"b", by decide, by decide⟩, by simp [IsHiddenName]⟩
  · have hfile : targetFiles.Offers ["target"] [] ".draft.rs" :=
      ⟨⟨.text "", by decide +kernel⟩, List.forall_mem_nil _⟩
    exact fun h => ((hoffered _ _ hfile).1.1 h).2 (by simp [IsHiddenName])
  · intro h
    obtain ⟨way, name, heq, hfile⟩ := hall _ (.inl h)
    have hpath : "target/target/x.rs" = Path.joinAll "target" (["target"] ++ ["x.rs"]) := by decide
    rw [hpath, Path.joinAll_inj (by decide) (by decide +kernel) (hfile.isName named),
      List.append_singleton_inj] at heq
    obtain ⟨rfl, -⟩ := heq
    exact (hfile.way_searched "target" (by simp)).2 rfl
  · have hfile : targetFiles.Offers ["target"] ["m.rs"] "a.types.yml" :=
      ⟨⟨.bytes, by decide +kernel⟩, by simp [IsHiddenName]⟩
    exact (hoffered _ _ hfile).2.2 ⟨⟨"a", .inr (.inl (by decide))⟩, by simp [IsHiddenName]⟩

/-- A directory with nothing but a source file whose name begins with a dot. -/
def hiddenOrder : FileTree where
  root := .directory [("src", .directory [(".order.rs", .file (.text "struct Order{id:u8}"))])]

/-- The file stands in no directory to be passed over, and is missing all the same. -/
theorem hidden_order_missed :
    hiddenOrder.root.isWellNamed = true ∧ hiddenOrder.locate "src" = .ok ["src"] ∧
    hiddenOrder.entryAt? ["src"] = some .directory ∧
    hiddenOrder.Offers ["src"] [] ".order.rs" ∧ IsSourceName ".order.rs" ∧
    Path.joinAll "src" ([] ++ [".order.rs"]) = "src/.order.rs" ∧ hiddenOrder.scan "src" = {} := by
  have hlocate : hiddenOrder.locate "src" = .ok ["src"] := eq_ok_of_toOption (by decide +kernel)
  have hfiles : filesBelow "src" (.directory [(".order.rs", .file (.text "struct Order{id:u8}"))]) =
      [] := by
    rw [filesBelow_directory]
    simp [searched, byName, isSkipped]
  refine ⟨by decide +kernel, hlocate, by decide +kernel,
    ⟨⟨.text "struct Order{id:u8}", by decide +kernel⟩, List.forall_mem_nil _⟩,
    ⟨".order", by decide, by decide⟩, by decide, ?_⟩
  rw [scan_eq hlocate rfl, hfiles]
  rfl

end FileTree

end ApiModels
