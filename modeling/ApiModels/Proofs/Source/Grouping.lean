import Mathlib.Data.List.Forall2
import Mathlib.Data.List.Nodup
import ApiModels.Naming.Convention
import ApiModels.Proofs.KeyedList
import ApiModels.Proofs.Source.EntryLists
import ApiModels.Proofs.Source.Resolution

/-!
# Entries of the same element

The entries that an element has in attributes of the name `serde` may stand in one attribute or in
several, in any order. Whoever asks for a value (`Regrouped.annotationValue?_eq`) or for a flag
(`Regrouped.carries_eq`) gets the same answer, as long as no two entries have the same key; so names,
superclasses and constants are the same, and all that sources declare is alike
(`alike_resolve`).
-/

namespace ApiModels

/-! ## What is asked of annotations -/

theorem OrderedMap.get?_ofListLast {α : Type} {ps : List (String × α)} {k : String} {v : α}
    (h : (ps.map Prod.fst).Nodup) :
    OrderedMap.get? (KeyedList.ofListLast ps) k = some v ↔ (k, v) ∈ ps := by
  have hps : (KeyedList.ofListLast ps : OrderedMap α) = ⟨ps, h⟩ := KeyedList.ofListLast_toList ⟨ps, h⟩
  rw [hps, OrderedMap.get?_eq_some_iff]

/-- A value is found if some annotation gives it and none gives another one. -/
theorem annotationValue?_eq_some_iff {as : List Annotation} {n k v : String}
    (h : ∀ a ∈ as, a.name = n → ∀ a' ∈ as, a'.name = n →
      ∀ v v', a.values.get? k = some v → a'.values.get? k = some v' → v = v') :
    annotationValue? as n k = some v ↔ ∃ a ∈ as, a.name = n ∧ a.values.get? k = some v := by
  have hfound {w : String} (hw : annotationValue? as n k = some w) :
      ∃ a ∈ as, a.name = n ∧ a.values.get? k = some w := by
    obtain ⟨a, ha, hav⟩ := List.exists_of_findSome?_eq_some hw
    obtain ⟨ha, hn⟩ := List.mem_filter.1 ha
    exact ⟨a, ha, by simpa using hn, hav⟩
  refine ⟨hfound, ?_⟩
  rintro ⟨a, ha, hn, hav⟩
  cases hw : annotationValue? as n k with
  | none =>
    have hnone := List.findSome?_eq_none_iff.1 hw a (List.mem_filter.2 ⟨ha, by simpa using hn⟩)
    rw [hav] at hnone
    cases hnone
  | some w =>
    obtain ⟨a', ha', hn', haw⟩ := hfound hw
    rw [h a ha hn a' ha' hn' v w hav haw]

namespace Source

/-! ## Entries and other attributes -/

/-- The key of an entry. -/
def Entry.key (e : Entry) : String := pathText e.path

/-- The entries of an attribute that is a list of the name `serde`. -/
def Attribute.entries? (a : Attribute) : Option (List Entry) :=
  match a.form with
  | .list es => if pathText a.path = "serde" then some es else none
  | _ => none

/-- All entries in lists of the name `serde`. -/
def entriesOf (attributes : List Attribute) : List Entry :=
  attributes.flatMap fun a => a.entries?.getD []

/-- The attributes that are no lists of the name `serde`. -/
def otherAttributes (attributes : List Attribute) : List Attribute :=
  attributes.filter (·.entries?.isNone)

/-- The same attributes, but for how the entries in lists of the name `serde` are divided among the
lists and ordered. -/
inductive Regrouped : List Attribute → List Attribute → Prop
  | same {as : List Attribute} : Regrouped as as
  | entries {as bs : List Attribute} (hentries : (entriesOf as).Perm (entriesOf bs))
      (hkeys : ((entriesOf as).map Entry.key).Nodup)
      (hothers : otherAttributes as = otherAttributes bs) : Regrouped as bs

variable {a : Attribute} {as bs : List Attribute} {e : Entry} {es : List Entry}
  {m : Annotation} {n k v : String}

theorem Attribute.entries?_eq_some_iff :
    a.entries? = some es ↔ a.form = .list es ∧ pathText a.path = "serde" := by
  rw [entries?]
  split
  · next h => simp [h, and_comm]
  · next h =>
    simp only [reduceCtorEq, false_iff, not_and]
    exact fun hform => (h es hform).elim

theorem mem_entriesOf : e ∈ entriesOf as ↔ ∃ a ∈ as, ∃ es ∈ a.entries?, e ∈ es := by
  simp only [entriesOf, List.mem_flatMap]
  refine exists_congr fun a => and_congr_right fun _ => ?_
  cases a.entries? <;> simp

theorem isDoc_of_entries? (h : a.entries? = some es) : a.isDoc = false := by
  obtain ⟨-, hpath⟩ := Attribute.entries?_eq_some_iff.1 h
  by_contra hdoc
  simp only [Attribute.isDoc, Bool.not_eq_false, Bool.and_eq_true, beq_iff_eq] at hdoc
  rw [hdoc.2] at hpath
  revert hpath
  decide

theorem annotations_of_entries? (h : a.entries? = some es) :
    a.annotations = ⟨"serde", .ofListLast (es.filterMap Entry.value?)⟩ ::
      es.filterMap (Entry.flag? "serde") := by
  obtain ⟨hform, hpath⟩ := Attribute.entries?_eq_some_iff.1 h
  rw [Attribute.annotations, isDoc_of_entries? h, hform, hpath]
  rfl

theorem Entry.flag?_eq_some_iff : e.flag? n = some m ↔
    e.form = .flag ∧ m = .marker (n ++ "::" ++ e.key) := by
  rw [flag?]
  split
  · next h => simp [h, key, eq_comm]
  · next h => simpa using fun hform => (h hform).elim

theorem mem_flags_iff : m ∈ es.filterMap (Entry.flag? n) ↔
    ∃ e ∈ es, e.form = .flag ∧ m = .marker (n ++ "::" ++ e.key) := by
  simp only [List.mem_filterMap, Entry.flag?_eq_some_iff]

theorem Entry.value?_key {p : String × String} (h : e.value? = some p) : p.1 = e.key := by
  rw [value?] at h
  split at h
  · obtain ⟨text, -, rfl⟩ := Option.map_eq_some_iff.1 h
    rfl
  · cases h

theorem flag_ne_serde (k : String) : "serde" ++ "::" ++ k ≠ "serde" := fun h =>
  absurd (congrArg String.length h)
    (by rw [String.length_append]; exact Nat.ne_of_gt (Nat.lt_add_right _ (by decide)))

/-! ## Values -/

theorem nodup_values (h : (es.map Entry.key).Nodup) :
    ((es.filterMap Entry.value?).map Prod.fst).Nodup := by
  rw [List.Nodup, List.pairwise_map] at h ⊢
  refine List.Pairwise.filterMap _ (fun e e' hne p hp p' hp' => ?_) h
  rwa [Entry.value?_key hp, Entry.value?_key hp']

/-- An attribute that is no list of the name `serde` gives only one key a value under this name. -/
theorem get?_of_entries?_eq_none (h : a.entries? = none) (hm : m ∈ a.annotations)
    (hname : m.name = "serde") (hk : k ≠ "value") : m.values.get? k = none := by
  rw [Attribute.annotations] at hm
  split at hm
  · cases hm
  · split at hm
    · cases List.mem_singleton.1 hm
      rfl
    · next literal _ =>
      cases List.mem_singleton.1 hm
      have hvalues : (((literal.bind Literal.text?).toList.map ("value", ·)).map Prod.fst).Nodup := by
        cases literal.bind Literal.text? <;> simp
      refine Option.eq_none_iff_forall_ne_some.2 fun v hv => ?_
      obtain ⟨text, -, hp⟩ := List.mem_map.1 ((OrderedMap.get?_ofListLast hvalues).1 hv)
      exact hk (congrArg Prod.fst hp).symm
    · next entries hform =>
      obtain rfl | hm := List.mem_cons.1 hm
      · rw [Attribute.entries?, hform] at h
        exact absurd hname (by simpa using h)
      · obtain ⟨e, -, -, rfl⟩ := mem_flags_iff.1 hm
        rfl

/-- The entries give the values that the attribute's annotations have. -/
theorem exists_value_iff (h : a.entries? = some es) (hkeys : (es.map Entry.key).Nodup) :
    (∃ m ∈ a.annotations, m.name = "serde" ∧ m.values.get? k = some v) ↔
      ∃ e ∈ es, e.value? = some (k, v) := by
  rw [annotations_of_entries? h, ← List.mem_filterMap,
    ← OrderedMap.get?_ofListLast (nodup_values hkeys)]
  constructor
  · rintro ⟨m, hm, hname, hv⟩
    obtain rfl | hm := List.mem_cons.1 hm
    · exact hv
    · obtain ⟨e, -, -, rfl⟩ := mem_flags_iff.1 hm
      exact absurd hname (flag_ne_serde _)
  · exact fun hv => ⟨_, List.mem_cons_self, rfl, hv⟩

theorem nodup_keys_of_mem (hkeys : ((entriesOf as).map Entry.key).Nodup) (ha : a ∈ as)
    (h : a.entries? = some es) : (es.map Entry.key).Nodup := by
  refine (List.Sublist.map _ ?_).nodup hkeys
  rw [entriesOf, List.flatMap_def]
  exact List.sublist_flatten_of_mem (List.mem_map.2 ⟨a, ha, by rw [h]; rfl⟩)

theorem exists_values_iff (hkeys : ((entriesOf as).map Entry.key).Nodup) (hk : k ≠ "value") :
    (∃ m ∈ annotations as, m.name = "serde" ∧ m.values.get? k = some v) ↔
      ∃ e ∈ entriesOf as, e.value? = some (k, v) := by
  constructor
  · rintro ⟨m, hm, hname, hv⟩
    obtain ⟨a, ha, hm⟩ := List.mem_flatMap.1 hm
    cases h : a.entries? with
    | none =>
      rw [get?_of_entries?_eq_none h hm hname hk] at hv
      cases hv
    | some es =>
      obtain ⟨e, he, hev⟩ := (exists_value_iff h (nodup_keys_of_mem hkeys ha h)).1 ⟨m, hm, hname, hv⟩
      exact ⟨e, mem_entriesOf.2 ⟨a, ha, es, h, he⟩, hev⟩
  · rintro ⟨e, he, hev⟩
    obtain ⟨a, ha, es, h, he⟩ := mem_entriesOf.1 he
    obtain ⟨m, hm, hm'⟩ := (exists_value_iff h (nodup_keys_of_mem hkeys ha h)).2 ⟨e, he, hev⟩
    exact ⟨m, List.mem_flatMap.2 ⟨a, ha, hm⟩, hm'⟩

/-- The value of a key is what the entry with this key gives it, whichever list it stands in. -/
theorem annotationValue?_iff (hkeys : ((entriesOf as).map Entry.key).Nodup) (hk : k ≠ "value") :
    annotationValue? (annotations as) "serde" k = some v ↔
      ∃ e ∈ entriesOf as, e.value? = some (k, v) := by
  rw [← exists_values_iff hkeys hk]
  refine annotationValue?_eq_some_iff fun m hm hname m' hm' hname' w w' hw hw' => ?_
  obtain ⟨e, he, hev⟩ := (exists_values_iff hkeys hk).1 ⟨m, hm, hname, hw⟩
  obtain ⟨e', he', hev'⟩ := (exists_values_iff hkeys hk).1 ⟨m', hm', hname', hw'⟩
  -- two entries that give a value to one key have the same key, and so are the same
  have hkey : e.key = e'.key := (Entry.value?_key hev).symm.trans (Entry.value?_key hev' :)
  rw [List.inj_on_of_nodup_map hkeys he he' hkey, hev'] at hev
  cases hev
  rfl

/-! ## Flags and documentation -/

/-- An annotation of another name is a flag of an entry, or comes from another attribute. -/
theorem carries_iff (as : List Attribute) (hn : n ≠ "serde") : carries (annotations as) n = true ↔
    carries (annotations (otherAttributes as)) n = true ∨
      ∃ e ∈ entriesOf as, e.form = .flag ∧ "serde" ++ "::" ++ e.key = n := by
  simp only [carries, List.any_eq_true, beq_iff_eq]
  constructor
  · rintro ⟨m, hm, hname⟩
    obtain ⟨a, ha, hm⟩ := List.mem_flatMap.1 hm
    cases h : a.entries? with
    | none =>
      have ha' : a ∈ otherAttributes as := List.mem_filter.2 ⟨ha, by rw [h]; rfl⟩
      exact .inl ⟨m, List.mem_flatMap.2 ⟨a, ha', hm⟩, hname⟩
    | some es =>
      rw [annotations_of_entries? h] at hm
      obtain rfl | hm := List.mem_cons.1 hm
      · exact absurd hname.symm hn
      · obtain ⟨e, he, hform, rfl⟩ := mem_flags_iff.1 hm
        exact .inr ⟨e, mem_entriesOf.2 ⟨a, ha, es, h, he⟩, hform, hname⟩
  · rintro (⟨m, hm, hname⟩ | ⟨e, he, hform, hname⟩)
    · obtain ⟨a, ha, hm⟩ := List.mem_flatMap.1 hm
      exact ⟨m, List.mem_flatMap.2 ⟨a, List.mem_of_mem_filter ha, hm⟩, hname⟩
    · obtain ⟨a, ha, es, h, he⟩ := mem_entriesOf.1 he
      refine ⟨.marker ("serde" ++ "::" ++ e.key), List.mem_flatMap.2 ⟨a, ha, ?_⟩, hname⟩
      rw [annotations_of_entries? h]
      exact List.mem_cons_of_mem _ (mem_flags_iff.2 ⟨e, he, hform, rfl⟩)

theorem docLines_otherAttributes (as : List Attribute) :
    docLines (otherAttributes as) = docLines as := by
  rw [docLines, docLines, otherAttributes, List.filterMap_filter]
  congr 1
  refine List.filterMap_congr fun a _ => ?_
  cases h : a.entries? with
  | none => rfl
  | some es => rw [Attribute.docText?, isDoc_of_entries? h]; rfl

/-! ## The same answers -/

namespace Regrouped

theorem annotationValue?_eq (h : Regrouped as bs) (hk : k ≠ "value") :
    annotationValue? (annotations bs) "serde" k = annotationValue? (annotations as) "serde" k := by
  cases h with
  | same => rfl
  | entries hentries hkeys =>
    refine Option.ext fun v => ?_
    rw [annotationValue?_iff hkeys hk, annotationValue?_iff ((hentries.map _).nodup_iff.1 hkeys) hk]
    simp only [hentries.mem_iff]

theorem carries_eq (h : Regrouped as bs) (hn : n ≠ "serde") :
    carries (annotations bs) n = carries (annotations as) n := by
  cases h with
  | same => rfl
  | entries hentries _ hothers =>
    rw [Bool.eq_iff_iff, carries_iff bs hn, carries_iff as hn, hothers]
    simp only [hentries.mem_iff]

theorem docLines_eq (h : Regrouped as bs) : docLines bs = docLines as := by
  cases h with
  | same => rfl
  | entries _ _ hothers =>
    rw [← docLines_otherAttributes bs, ← hothers, docLines_otherAttributes as]

/-- A table that reads values of the name `serde` judges alike. -/
theorem judge_eq {table : AnnotationTable} {sources : List NameSource} (h : Regrouped as bs)
    (hignore : "serde" ∉ table.ignore)
    (hsources : ∀ s ∈ sources, s.owner = "serde" ∧ s.key ≠ "value") :
    table.judge sources (annotations bs) = table.judge sources (annotations as) := by
  have hany : table.ignore.any (carries (annotations bs)) =
      table.ignore.any (carries (annotations as)) := by
    rw [Bool.eq_iff_iff, List.any_eq_true, List.any_eq_true]
    refine exists_congr fun n => and_congr_right fun hn => ?_
    rw [h.carries_eq (ne_of_mem_of_not_mem hn hignore)]
  have hvalues : (sources.filterMap fun s => annotationValue? (annotations bs) s.owner s.key) =
      sources.filterMap fun s => annotationValue? (annotations as) s.owner s.key := by
    refine List.filterMap_congr fun s hs => ?_
    obtain ⟨howner, hkey⟩ := hsources s hs
    rw [howner, h.annotationValue?_eq hkey]
  rw [AnnotationTable.judge, AnnotationTable.judge, hany, hvalues]

theorem serde_judge_eq (h : Regrouped as bs) :
    Convention.serde.table.judge [⟨"serde", "rename"⟩] (annotations bs) =
      Convention.serde.table.judge [⟨"serde", "rename"⟩] (annotations as) :=
  h.judge_eq (by decide) (by decide)

end Regrouped

end Source

end ApiModels
