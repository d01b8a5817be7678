import ApiModels.Proofs.CatalogFile
import ApiModels.Proofs.Source.TypeNames

/-!
# Source files and catalog files agree on types

Resolution makes type references of syntax trees, catalog files are read by marks in texts. Both
know the same references: every type of a declaration that source files make is read back from its
written form, so their catalog can be written as a catalog file and is loaded from it unchanged.
-/

namespace ApiModels.Source

variable {scope : Scope} {item : Item} {items : List Item} {files : List (List Item)}
  {declared : List String} {d : Declaration} {m : Method} {t : TypeRef}

theorem isPlain_of_declaration? (hplain : ∀ i ∈ item.identifiers, IsPlain i.text)
    (h : item.declaration? declared = some d) : IsPlain d.name := by
  match item with
  | .structure s =>
    cases h
    exact hplain s.name List.mem_cons_self
  | .enumeration e =>
    cases h
    exact hplain e.name List.mem_cons_self

/-- The flattened field and the others are fields of the structure. -/
theorem Scope.types_ofStructure {s : Structure} (h : t ∈ (scope.ofStructure s).types) :
    ∃ f ∈ s.fields, t = scope.typeRef f.type := by
  have hfield : ∃ f ∈ s.fields.map scope.field, t = f.type := by
    simp only [Declaration.types, ofStructure, List.map_nil, List.append_nil, List.mem_append,
      Option.mem_toList, Option.map_eq_some_iff, List.mem_map] at h
    rcases h with ⟨f, hf, rfl⟩ | ⟨f, hf, rfl⟩
    · exact ⟨f, List.mem_of_find?_eq_some hf, rfl⟩
    · exact ⟨f, List.mem_of_mem_eraseP hf, rfl⟩
  obtain ⟨f, hf, rfl⟩ := hfield
  obtain ⟨named, hnamed, rfl⟩ := List.mem_map.1 hf
  exact ⟨named, hnamed, rfl⟩

/-- The types that an item declares without its methods. -/
theorem readable_of_declaration? (hplain : ∀ i ∈ item.identifiers, IsPlain i.text)
    (h : item.declaration? declared = some d) : ∀ t ∈ d.types, t.Readable := by
  intro t ht
  have hname := isPlain_of_declaration? hplain h
  match item with
  | .structure s =>
    cases h
    obtain ⟨f, hf, rfl⟩ := Scope.types_ofStructure ht
    apply Scope.readable_typeRef hname
    intro i hi
    exact hplain i (List.mem_cons_of_mem _ (List.mem_flatMap.2 ⟨f, hf, hi⟩))
  | .enumeration e =>
    cases h
    cases ht

/-- What the methods that an item adds return. -/
theorem Scope.readable_returns (hself : IsPlain scope.self)
    (hplain : ∀ i ∈ item.identifiers, IsPlain i.text) (h : m ∈ scope.methods item) :
    m.returns.Readable := by
  cases item with
  | implementation i =>
    rw [methods] at h
    split at h
    · obtain ⟨f, hf, hmethod⟩ := List.mem_filterMap.1 h
      rw [method?] at hmethod
      split at hmethod
      · cases hmethod
      · obtain ⟨returns, hreturns, rfl⟩ := Option.map_eq_some_iff.1 hmethod
        apply readable_typeRef hself
        intro identifier hidentifier
        apply hplain
        refine List.mem_flatMap.2 ⟨f, hf, List.mem_flatMap.2 ⟨returns, ?_, hidentifier⟩⟩
        exact Option.mem_toList.2 hreturns
    · cases h
  | _ => cases h

/-- All types of the declarations that source files make are readable. -/
theorem readable_of_mem_resolve (hplain : ∀ item ∈ files.flatten, ∀ i ∈ item.identifiers,
    IsPlain i.text) (hd : d ∈ (resolve files).declarations) : ∀ t ∈ d.types, t.Readable := by
  rw [resolve_eq_ofList, KeyedList.mem_ofList] at hd
  obtain ⟨first, hfirst, rfl⟩ := List.mem_map.1 (List.mem_of_find?_eq_some hd)
  obtain ⟨item, hitem, hdeclaration⟩ := List.mem_filterMap.1 hfirst
  have hname := isPlain_of_declaration? (hplain item hitem) hdeclaration
  intro t ht
  rcases List.mem_append.1 ht with hsuper | ht
  · exact readable_of_declaration? (hplain item hitem) hdeclaration t
      (List.mem_append_left _ hsuper)
  · rcases List.mem_append.1 ht with hfield | hmethod
    · exact readable_of_declaration? (hplain item hitem) hdeclaration t
        (List.mem_append_right _ (List.mem_append_left _ hfield))
    · obtain ⟨m, hm, rfl⟩ := List.mem_map.1 hmethod
      obtain ⟨item', hitem', hm⟩ := List.mem_flatMap.1 hm
      exact Scope.readable_returns hname (hplain item' hitem') hm

/-- A type of the sources is read back from the written form of its reference, in every scope and at
every depth of arguments, as long as identifiers are plain. So the catalog of source files is loaded
unchanged, in both encodings, from every text that holds it with its types in their written forms. -/
theorem resolve_types_readable (files : List (List Item))
    (hplain : ∀ item ∈ files.flatten, ∀ i ∈ item.identifiers, IsPlain i.text) :
    (∀ (scope : Scope) (type : Ty), IsPlain scope.self →
      (∀ i ∈ type.identifiers, IsPlain i.text) →
        TypeRef.parse (scope.typeRef type).display = scope.typeRef type) ∧
    (∀ d ∈ (resolve files).declarations, ∀ t ∈ d.types, TypeRef.parse t.display = t) ∧
    ∀ encoding text, CatalogFile.Holds encoding text (resolve files) →
      CatalogFile.read encoding text = .ok (resolve files) := by
  have htypes : ∀ d ∈ (resolve files).declarations, ∀ t ∈ d.types, TypeRef.parse t.display = t := by
    intro d hd t ht
    exact (readable_of_mem_resolve hplain hd t ht).parse_display
  refine ⟨?_, htypes, ?_⟩
  · intro scope type hself htype
    exact (Scope.readable_typeRef hself type htype).parse_display
  · intro encoding text htext
    exact CatalogFile.read_of_holds htext htypes

/-- A shelf that has the fields of a type with arguments. -/
def shelfFile : List Item :=
  let path (name : String) (arguments : List Ty) : Ty :=
    .path .relative [⟨⟨name, false⟩, arguments.map .type⟩]
  [.structure ⟨[], ⟨"Shelf", false⟩,
    [⟨[⟨[⟨"serde", false⟩], false, .list [⟨[⟨"flatten", false⟩], .flag⟩]⟩], ⟨"base", false⟩,
      path "Base" [.reference none false (.slice (path "Self" [])), .tuple [], .other]⟩]⟩]

/-- The shelf as a catalog file. -/
def shelfCatalog : String :=
  "\x7b\"types\":[\x7b\"name\":\"Shelf\",\"kind\":\"class\"," ++
    "\"superclass\":\"Base<array<Shelf>, (), unknown>\",\"annotations\":[],\"fields\":[]," ++
    "\"methods\":[],\"constants\":[]\x7d]\x7d"

theorem resolve_shelfFile : resolve [shelfFile] = .ofList [{
    name := "Shelf"
    superclass := some ⟨"Base", [.array ⟨"Shelf", []⟩, ⟨"()", []⟩, .unknown]⟩ }] := by
  decide +kernel

theorem shelfCatalog_holds : CatalogFile.Holds .json shelfCatalog (resolve [shelfFile]) := by
  have hread : Json.read? shelfCatalog = some (.object [("types", .list [.object
      [("name", .text "Shelf"), ("kind", .text "class"),
        ("superclass", .text "Base<array<Shelf>, (), unknown>"), ("annotations", .list []),
        ("fields", .list []), ("methods", .list []), ("constants", .list [])]])]) := by
    cbv
  rw [resolve_shelfFile]
  exact hread

theorem shelf_types_readable :
    (∀ item ∈ [shelfFile].flatten, ∀ i ∈ item.identifiers, IsPlain i.text) ∧
    (resolve [shelfFile]).declarations.flatMap (·.types.map (·.display)) =
      ["Base<array<Shelf>, (), unknown>"] ∧
    (∀ d ∈ (resolve [shelfFile]).declarations, ∀ t ∈ d.types, TypeRef.parse t.display = t) ∧
    CatalogFile.read .json shelfCatalog = .ok (resolve [shelfFile]) := by
  have hplain : ∀ item ∈ [shelfFile].flatten, ∀ i ∈ item.identifiers, IsPlain i.text := by
    decide +kernel
  obtain ⟨-, htypes, hload⟩ := resolve_types_readable [shelfFile] hplain
  exact ⟨hplain, by decide +kernel, htypes, hload .json shelfCatalog shelfCatalog_holds⟩

end ApiModels.Source
