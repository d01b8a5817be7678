import ApiModels.Proofs.Document
import ApiModels.Proofs.Walk.Members
import ApiModels.Proofs.Walk.Termination

/-!
# What the default roots cover

Every walk has its own model set, and the sets are merged by id. Nothing is lost on the way: an id
that one walk has found is an id of the merged set, whatever names coincide, and an expandable root
has its own name among the ids of its walk. Nothing is made up either: every id is the name of a
declared type that the policy leaves open, so there are no more ids than declarations.
-/

namespace ApiModels

variable {w : Walk} {root : TypeRef} {roots : List TypeRef} {e : Expansion} {id : String}
  {d : Declaration}

namespace Walk

theorem mem_ids_models (h : w.expansion? root = some e) : e.id ∈ (w.models root).ids := by
  obtain ⟨log, hlog, hmodels, -⟩ := exists_log w root
  rw [hmodels]
  exact hlog.mem_keys_of_mem List.mem_cons_self h

theorem exists_declaration_of_mem_ids (h : id ∈ (w.models root).ids) :
    ∃ d ∈ w.catalog.declarations, w.policy.isTerminal w.catalog d.typeRef = false ∧
      w.typeName? d.typeRef = some id := by
  obtain ⟨log, hlog, hmodels, -⟩ := exists_log w root
  rw [hmodels] at h
  rcases mem_keys_record.1 h with h | ⟨e, he, rfl⟩
  · cases h
  · have hte := hlog.expansion?_of_mem he
    obtain ⟨hx, -, hid⟩ := expansion?_eq_some_iff.1 hte
    exact ⟨e.declaration, (expansion?_typeRef hte).1, hx.isOpen, hid⟩

/-! ## Merged models -/

theorem mergedModels_eq_ofList (w : Walk) (roots : List TypeRef) :
    w.mergedModels roots = .ofList (roots.flatMap fun root => (w.models root).toList) := by
  have h := KeyedList.foldl_extend (.empty : ModelSet) (roots.map w.models)
  rw [List.foldl_map, List.flatMap_map] at h
  exact h

/-- A merge drops models but no ids. -/
theorem mem_ids_mergedModels :
    id ∈ (w.mergedModels roots).ids ↔ ∃ root ∈ roots, id ∈ (w.models root).ids := by
  rw [mergedModels_eq_ofList, ModelSet.ids, KeyedList.ofList, KeyedList.mem_keys_insertAll,
    List.map_flatMap]
  constructor
  · rintro (h | h)
    · cases h
    · exact List.mem_flatMap.1 h
  · intro h
    exact .inr (List.mem_flatMap.2 h)

theorem size_mergedModels_le (w : Walk) (roots : List TypeRef) :
    KeyedList.size (w.mergedModels roots) ≤ KeyedList.size w.catalog := by
  have hsub : (w.mergedModels roots).ids ⊆
      w.catalog.declarations.filterMap fun d => w.typeName? d.typeRef := by
    intro id hid
    obtain ⟨root, -, hid⟩ := mem_ids_mergedModels.1 hid
    obtain ⟨d, hd, -, hname⟩ := exists_declaration_of_mem_ids hid
    exact List.mem_filterMap.2 ⟨d, hd, hname⟩
  calc KeyedList.size (w.mergedModels roots)
      = (w.mergedModels roots).ids.length := (List.length_map ..).symm
    _ ≤ (w.catalog.declarations.filterMap fun d => w.typeName? d.typeRef).length :=
      (w.mergedModels roots).nodup.length_le_of_subset hsub
    _ ≤ KeyedList.size w.catalog := List.length_filterMap_le ..

/-! ## Default roots -/

theorem mem_ids_default (hd : d ∈ w.catalog.declarations) (hkind : d.isEnumeration = false)
    (hopen : w.policy.isTerminal w.catalog d.typeRef = false)
    (hid : w.typeName? d.typeRef = some id) (hshows : w.Shows d) :
    id ∈ (w.mergedModels (defaultRoots w.catalog)).ids := by
  have hroot : d.typeRef ∈ defaultRoots w.catalog := by
    apply List.mem_map_of_mem
    exact List.mem_filter.2 ⟨hd, by simp [hkind]⟩
  have hdecl : w.catalog.declaration? d.typeRef = some d :=
    Catalog.declaration?_eq_some_iff.2 ⟨hd, rfl⟩
  have hx : w.Expandable d.typeRef := (expandable_iff hdecl).2 ⟨hopen, ⟨id, hid⟩, hshows⟩
  have he : w.expansion? d.typeRef = some ⟨d, id⟩ := expansion?_eq_some_iff.2 ⟨hx, hdecl, hid⟩
  exact mem_ids_mergedModels.2 ⟨_, hroot, mem_ids_models he⟩

end Walk

/-- What a document says of the types that a walk is about: each declared type that can be
documented has an entry under its name, no id comes up twice, each is the name of a declared type
that is left open, and there are no more of them than declarations. -/
structure Document.Covers (doc : Document) (w : Walk) : Prop where
  documented : ∀ d ∈ w.catalog.declarations, d.isEnumeration = false →
    w.policy.isTerminal w.catalog d.typeRef = false → ∀ id, w.typeName? d.typeRef = some id →
      w.Shows d → ∃ schema, doc.models.get? id = some schema ∧ schema.id = id
  nodup : (doc.models.toList.map (·.2.id)).Nodup
  named : ∀ entry ∈ doc.models.toList, entry.2.id = entry.1 ∧
    ∃ d ∈ w.catalog.declarations, w.policy.isTerminal w.catalog d.typeRef = false ∧
      w.typeName? d.typeRef = some entry.1
  size_le : KeyedList.size doc.models ≤ KeyedList.size w.catalog

theorem Document.covers_default (w : Walk) (apiVersion : String) (basePath : Option String) :
    (ofModels apiVersion basePath (w.mergedModels (Walk.defaultRoots w.catalog))).Covers w where
  documented d hd hkind hopen id hid hshows := by
    obtain ⟨m, hm, rfl⟩ := List.mem_map.1 (Walk.mem_ids_default hd hkind hopen hid hshows)
    refine ⟨.ofModel m, ?_, rfl⟩
    rw [get?_ofModels, KeyedList.find?_eq_some_iff.2 ⟨hm, rfl⟩, Option.map_some]
  nodup := by
    rw [ids_ofModels]
    exact (w.mergedModels (Walk.defaultRoots w.catalog)).nodup
  named entry hentry := by
    obtain ⟨m, hm, rfl⟩ := List.mem_map.1 hentry
    obtain ⟨root, -, hid⟩ := Walk.mem_ids_mergedModels.1 (List.mem_map_of_mem hm)
    exact ⟨rfl, Walk.exists_declaration_of_mem_ids hid⟩
  size_le := by
    have h := Walk.size_mergedModels_le w (Walk.defaultRoots w.catalog)
    rwa [KeyedList.size, ofModels, List.length_map]

end ApiModels
