import ApiModels.Input
import ApiModels.Proofs.FileTree.Removal
import ApiModels.Proofs.Source.Resolution

/-!
# Directories with broken source files

A source file below a directory that cannot be read or parsed declares nothing, and does nothing
else: what is loaded of the directory is what is loaded after all such files have been removed
(`FileTree.loadInput_withoutBroken`). A catalog that cannot be loaded ends the loading instead.
-/

namespace ApiModels.FileTree

variable {t t' : FileTree} {path p : String}

/-! ## What reading depends on -/

theorem parseFile_congr (h : t'.readText p = t.readText p) : t'.parseFile p = t.parseFile p := by
  rw [parseFile, parseFile, h]

theorem loadCatalogInput_congr (h : t'.readText p = t.readText p) :
    t'.loadCatalogInput p = t.loadCatalogInput p := by
  rw [loadCatalogInput, loadCatalogInput, loadCatalog, loadCatalog, text, text, h]

theorem isSourceFile_of_mem_sources (h : p ∈ (t.scan path).sources) :
    Scan.isSourceFile p = true := by
  rw [scan] at h
  split at h
  · cases h
  · exact (List.mem_filter.1 h).2

theorem isSourceFile_of_mem_catalogs (h : p ∈ (t.scan path).catalogs) :
    Scan.isSourceFile p = false := by
  rw [scan] at h
  split at h
  · cases h
  · have hp := (List.mem_filter.1 h).2
    rw [Bool.and_eq_true, Bool.not_eq_true'] at hp
    exact hp.1

private theorem mapM_congr {α β ε : Type} {f g : α → Except ε β} {l : List α}
    (h : ∀ a ∈ l, f a = g a) : l.mapM f = l.mapM g := by
  induction l with
  | nil => rfl
  | cons a l ih =>
    rw [List.forall_mem_cons] at h
    rw [List.mapM_cons, List.mapM_cons, h.1, ih h.2]

/-! ## Broken source files -/

/-- Whether a path names a source file that cannot be read or parsed. -/
def isBroken (t : FileTree) (path : String) : Bool :=
  Scan.isSourceFile path && (t.parseFile path).toOption.isNone

/-- The tree without the source files below a directory that cannot be read or parsed. -/
def withoutBroken (t : FileTree) (path : String) : FileTree := t.without t.isBroken path

/-- The items of the source files that a search finds and that can be read and parsed. -/
def goodFiles (t : FileTree) (path : String) : List (List Source.Item) :=
  (t.scan path).sources.filterMap fun p => (t.parseFile p).toOption

theorem loadInput_of_hasDirectory (hdirectory : t.hasDirectory path = true)
    (hinput : (t.scan path).catalogs ≠ [] ∨ t.goodFiles path ≠ []) :
    t.loadInput path = t.loadScan (t.scan path) := by
  have hfound : (t.scan path).isEmpty = false := by
    rw [Scan.isEmpty, Bool.and_eq_false_iff, List.isEmpty_eq_false_iff, List.isEmpty_eq_false_iff]
    refine hinput.symm.imp_left fun hgood hnone => hgood ?_
    rw [goodFiles, hnone]
    rfl
  rw [loadInput, if_pos hdirectory]
  simp only [hfound]
  rfl

/-- All that the catalogs and the good source files declare, the first declaration of each name. -/
theorem loadScan_eq (t : FileTree) (path : String) : t.loadScan (t.scan path) =
    ((t.scan path).catalogs.mapM t.loadCatalogInput).map fun catalogs =>
      .ofList (catalogs.flatMap (·.declarations) ++
        (Source.resolve (t.goodFiles path)).declarations) := by
  rw [loadScan]
  cases (t.scan path).catalogs.mapM t.loadCatalogInput with
  | error failure => rfl
  | ok catalogs =>
    refine congrArg Except.ok ?_
    rw [KeyedList.foldl_extend, KeyedList.extend, ← KeyedList.insertAll_append]
    rfl

section
variable (named : t.root.isWellNamed = true) (hdirectory : t.hasDirectory path = true)
include named hdirectory

theorem scan_withoutBroken : (t.withoutBroken path).scan path =
    { sources := (t.scan path).sources.filter fun p => (t.parseFile p).toOption.isSome
      catalogs := (t.scan path).catalogs } := by
  rw [withoutBroken, scan_without named hdirectory]
  congr 1
  · refine List.filter_congr fun p hp => ?_
    rw [isBroken, isSourceFile_of_mem_sources hp, Bool.true_and, Option.not_isNone]
  · refine List.filter_eq_self.2 fun p hp => ?_
    rw [isBroken, isSourceFile_of_mem_catalogs hp]
    rfl

theorem parseFile_withoutBroken (hp : p ∈ (t.scan path).sources)
    (hgood : (t.parseFile p).toOption.isSome = true) :
    (t.withoutBroken path).parseFile p = t.parseFile p := by
  refine parseFile_congr (readText_without named hdirectory (.inl hp) ?_)
  rw [isBroken, ← Option.not_isSome, hgood]
  exact Bool.and_false _

theorem loadCatalogInput_withoutBroken (hp : p ∈ (t.scan path).catalogs) :
    (t.withoutBroken path).loadCatalogInput p = t.loadCatalogInput p := by
  refine loadCatalogInput_congr (readText_without named hdirectory (.inr hp) ?_)
  rw [isBroken, isSourceFile_of_mem_catalogs hp]
  rfl

theorem goodFiles_withoutBroken : (t.withoutBroken path).goodFiles path = t.goodFiles path := by
  rw [goodFiles, goodFiles, scan_withoutBroken named hdirectory, List.filterMap_filter]
  refine List.filterMap_congr fun p hp => ?_
  cases hgood : (t.parseFile p).toOption.isSome with
  | true => rw [if_pos rfl, parseFile_withoutBroken named hdirectory hp hgood]
  | false => rw [Option.isNone_iff_eq_none.1 (Option.isSome_eq_false_iff.1 hgood)]; rfl

theorem loadScan_withoutBroken :
    (t.withoutBroken path).loadScan ((t.withoutBroken path).scan path) =
      t.loadScan (t.scan path) := by
  have hcatalogs : ((t.withoutBroken path).scan path).catalogs = (t.scan path).catalogs := by
    rw [scan_withoutBroken named hdirectory]
  rw [loadScan_eq, loadScan_eq, goodFiles_withoutBroken named hdirectory, hcatalogs,
    mapM_congr fun p hp => loadCatalogInput_withoutBroken named hdirectory hp]

end

/-- Where there is a catalog or a good source file, broken source files change nothing: the
directory gives what it gives without them. If all catalogs can be loaded it gives what these
declare, and after them what the good source files declare together, of each name the first. -/
theorem loadInput_withoutBroken (named : t.root.isWellNamed = true)
    (hdirectory : t.hasDirectory path = true)
    (hinput : (t.scan path).catalogs ≠ [] ∨ t.goodFiles path ≠ []) :
    (t.withoutBroken path).scan path =
      { sources := (t.scan path).sources.filter fun p => (t.parseFile p).toOption.isSome
        catalogs := (t.scan path).catalogs } ∧
    (t.withoutBroken path).loadInput path = t.loadInput path ∧
    ∀ catalogs, (t.scan path).catalogs.mapM t.loadCatalogInput = .ok catalogs →
      ∃ c : Catalog, t.loadInput path = .ok c ∧
        c = .ofList (catalogs.flatMap (·.declarations) ++
          (Source.resolve (t.goodFiles path)).declarations) ∧
        (∀ name, KeyedList.find? c name =
          (catalogs.findSome? (KeyedList.find? · name)).or
            (KeyedList.find? (Source.resolve (t.goodFiles path)) name)) ∧
        ∀ items ∈ t.goodFiles path, ∀ item ∈ items, ∀ name, item.declared? = some name →
          name ∈ KeyedList.keys c := by
  refine ⟨scan_withoutBroken named hdirectory, ?_, fun catalogs hcatalogs => ?_⟩
  · have hinput' : ((t.withoutBroken path).scan path).catalogs ≠ [] ∨
        (t.withoutBroken path).goodFiles path ≠ [] := by
      rw [goodFiles_withoutBroken named hdirectory, scan_withoutBroken named hdirectory]
      exact hinput
    have hdirectory' : (t.withoutBroken path).hasDirectory path = true :=
      hasDirectory_without named hdirectory
    rw [loadInput_of_hasDirectory hdirectory' hinput',
      loadInput_of_hasDirectory hdirectory hinput, loadScan_withoutBroken named hdirectory]
  · refine ⟨_, ?_, rfl, fun name => ?_, fun items hitems item hitem name hname => ?_⟩
    · rw [loadInput_of_hasDirectory hdirectory hinput, loadScan_eq, hcatalogs]
      rfl
    · rw [KeyedList.find?_ofList, List.find?_append, List.find?_flatMap]
      rfl
    · rw [KeyedList.keys_ofList, List.mem_eraseDups, List.map_append, List.mem_append]
      refine .inr ?_
      have hkeys : name ∈ KeyedList.keys (Source.resolve (t.goodFiles path)) := by
        rw [Source.keys_resolve, List.mem_eraseDups, List.mem_filterMap]
        exact ⟨item, List.mem_flatten.2 ⟨items, hitems, hitem⟩, hname⟩
      exact hkeys

/-- A source file, one that cannot be parsed, and a catalog that declares a name of the first. -/
def mixedEntries : List (String × Node) :=
  [("b.rs", .file (.text "struct Line{n:u8} struct Cart{first:Line}")),
    ("a.rs", .file (.text "struct")),
    ("base.types.yaml", .file (.text "types: [name: Line]"))]

/-- A directory with these entries. -/
def mixedFiles : FileTree where
  root := .directory [("src", .directory mixedEntries)]

theorem scan_mixedFiles : mixedFiles.scan "src" =
    { sources := ["src/a.rs", "src/b.rs"], catalogs := ["src/base.types.yaml"] } := by
  have hsearched : Scan.searched mixedEntries = _ :=
    Scan.byName_eq (by decide +kernel) (.swap _ _ _) (by decide +kernel)
  have hfiles : Scan.filesBelow "src" (.directory mixedEntries) =
      ["src/a.rs", "src/b.rs", "src/base.types.yaml"] := by
    rw [Scan.filesBelow_directory, hsearched]
    decide +kernel
  have hlocate : mixedFiles.locate "src" = .ok ["src"] := eq_ok_of_toOption (by decide +kernel)
  rw [scan_eq hlocate rfl, hfiles]
  decide +kernel

theorem mixedFiles_loadInput :
    (mixedFiles.withoutBroken "src").scan "src" =
      { sources := ["src/b.rs"], catalogs := ["src/base.types.yaml"] } ∧
    (mixedFiles.withoutBroken "src").loadInput "src" = mixedFiles.loadInput "src" ∧
    ∃ c : Catalog, mixedFiles.loadInput "src" = .ok c ∧
      KeyedList.find? c "Line" = some { name := "Line" } ∧ "Cart" ∈ KeyedList.keys c := by
  have hcatalogs : (mixedFiles.scan "src").catalogs.mapM mixedFiles.loadCatalogInput =
      .ok [.ofList [{ name := "Line" }]] := by
    rw [scan_mixedFiles]
    exact eq_ok_of_toOption (by decide +kernel)
  have hscan : (mixedFiles.scan "src").catalogs ≠ [] := by
    rw [scan_mixedFiles]
    decide
  obtain ⟨hclean, hload, hok⟩ := @loadInput_withoutBroken mixedFiles "src"
    (by decide +kernel) (by decide +kernel) (.inl hscan)
  obtain ⟨c, hc, -, hfind, hkeys⟩ := hok _ hcatalogs
  refine ⟨?_, hload, c, hc, ?_, ?_⟩
  · rw [hclean, scan_mixedFiles]
    decide +kernel
  · rw [hfind]
    rfl
  · have hparses : ((mixedFiles.parseFile "src/b.rs").toOption.any fun items =>
        items.any (·.declared? == some "Cart")) = true := by decide +kernel
    obtain ⟨items, hitems, hany⟩ := (Option.any_eq_true _ _).1 hparses
    obtain ⟨item, hitem, hname⟩ := List.any_eq_true.1 hany
    refine hkeys items ?_ item hitem "Cart" (beq_iff_eq.1 hname)
    rw [goodFiles, scan_mixedFiles]
    exact List.mem_filterMap.2 ⟨"src/b.rs", by decide, hitems⟩

end ApiModels.FileTree
