import ApiModels.Proofs.Correspondence
import ApiModels.Proofs.Source.EntryLists
import ApiModels.Proofs.Source.Grouping

/-!
# Sources with regrouped entries

However the entries of each field, method, type and variant are divided among attributes of the name
`serde`, the sources declare the same but for the annotations: the same fields and methods with the
same names in documents, the same superclasses, and the same constants (`alike_resolve`).
-/

namespace ApiModels

/-! ## Declarations that are alike -/

/-- Fields that differ at most in their annotations, and do so in nothing that counts: they are named
alike, and stand for all fields of their type or not. -/
structure Field.Alike (f f' : Field) : Prop where
  data : { f' with annotations := f.annotations } = f
  opinion : Convention.serde.table.opinion (.field f') = Convention.serde.table.opinion (.field f)
  isFlattened : Source.isFlattened f' = Source.isFlattened f

/-- Methods that differ at most in their annotations, and are named alike. -/
structure Method.Alike (m m' : Method) : Prop where
  data : { m' with annotations := m.annotations } = m
  opinion : Convention.serde.table.opinion (.method m') = Convention.serde.table.opinion (.method m)

/-- Declarations that differ at most in annotations, and are named alike with all their members. -/
structure Declaration.Alike (d d' : Declaration) : Prop where
  name : d'.name = d.name
  kind : d'.kind = d.kind
  superclass : d'.superclass = d.superclass
  opinion : ∀ t, Convention.serde.table.opinion (.type t (some d')) =
    Convention.serde.table.opinion (.type t (some d))
  fields : List.Forall₂ Field.Alike d.fields d'.fields
  methods : List.Forall₂ Method.Alike d.methods d'.methods

theorem Field.Alike.refl (f : Field) : f.Alike f := ⟨rfl, rfl, rfl⟩

theorem Method.Alike.refl (m : Method) : m.Alike m := ⟨rfl, rfl⟩

theorem Declaration.Alike.refl (d : Declaration) : d.Alike d :=
  ⟨rfl, rfl, rfl, fun _ => rfl, List.forall₂_same.2 fun f _ => .refl f,
    List.forall₂_same.2 fun m _ => .refl m⟩

theorem Field.Alike.map_type {f f' : Option Field} (h : Option.Rel Field.Alike f f') :
    f'.map Field.type = f.map Field.type := by
  cases h with
  | none => rfl
  | some h => rw [Option.map_some, Option.map_some, ← h.data]

namespace Source

variable {scope : Scope} {f f' : NamedField} {m m' : Function} {v v' : Variant} {s : Structure}
  {e : Enumeration} {item item' : Item} {files files' : List (List Item)} {declared : List String}
  {fields : List NamedField} {attributes : List Attribute} {variants : List Variant}

/-! ## Items -/

/-- A field with the same entries in other lists. -/
inductive NamedField.Regrouped : NamedField → NamedField → Prop
  | mk {f : NamedField} {attributes : List Attribute} (h : Source.Regrouped f.attributes attributes) :
      Regrouped f { f with attributes }

/-- A function with the same entries in other lists. -/
inductive Function.Regrouped : Function → Function → Prop
  | mk {m : Function} {attributes : List Attribute} (h : Source.Regrouped m.attributes attributes) :
      Regrouped m { m with attributes }

/-- A variant with the same entries in other lists. -/
inductive Variant.Regrouped : Variant → Variant → Prop
  | mk {v : Variant} {attributes : List Attribute} (h : Source.Regrouped v.attributes attributes) :
      Regrouped v { v with attributes }

/-- An item in which it and its parts have the same entries in other lists. -/
inductive Item.Regrouped : Item → Item → Prop
  | same {item : Item} : Regrouped item item
  | inStructure {s : Structure} {attributes : List Attribute} {fields : List NamedField}
      (h : Source.Regrouped s.attributes attributes)
      (hfields : List.Forall₂ NamedField.Regrouped s.fields fields) :
      Regrouped (.structure s) (.structure { s with attributes, fields })
  | inEnumeration {e : Enumeration} {attributes : List Attribute} {variants : List Variant}
      (h : Source.Regrouped e.attributes attributes)
      (hvariants : List.Forall₂ Variant.Regrouped e.variants variants) :
      Regrouped (.enumeration e) (.enumeration { e with attributes, variants })
  | inImplementation {i : Implementation} {functions : List Function}
      (h : List.Forall₂ Function.Regrouped i.functions functions) :
      Regrouped (.implementation i) (.implementation { i with functions })

theorem NamedField.Regrouped.alike (h : f.Regrouped f') :
    (scope.field f).Alike (scope.field f') := by
  cases h with
  | mk h =>
    refine ⟨?_, h.serde_judge_eq, h.carries_eq (by decide)⟩
    rw [Scope.field, Scope.field, docText, docText, h.docLines_eq]

theorem Function.Regrouped.alike (h : m.Regrouped m') :
    Option.Rel Method.Alike (scope.method? m) (scope.method? m') := by
  cases h with
  | mk h =>
    rw [Scope.method?, Scope.method?]
    split
    · exact .none
    · cases m.signature.returns with
      | none => exact .none
      | some returns =>
        refine .some ⟨?_, h.serde_judge_eq⟩
        rw [h.docLines_eq]

theorem Variant.Regrouped.constant_eq (h : v.Regrouped v') : v'.constant = v.constant := by
  cases h with
  | mk h => rw [Variant.constant, Variant.constant, h.annotationValue?_eq (by decide)]

theorem alike_ofStructure (h : Regrouped s.attributes attributes)
    (hfields : List.Forall₂ NamedField.Regrouped s.fields fields) :
    (scope.ofStructure s).Alike (scope.ofStructure { s with attributes, fields }) := by
  have halike : List.Forall₂ Field.Alike (s.fields.map scope.field) (fields.map scope.field) :=
    List.forall₂_map_left_iff.2 (List.forall₂_map_right_iff.2 (hfields.imp fun _ _ h => h.alike))
  have hflattened : ∀ f f' : Field, f.Alike f' → isFlattened f' = isFlattened f :=
    fun _ _ h => h.isFlattened
  exact ⟨rfl, rfl, Field.Alike.map_type (find?_of_forall₂ hflattened halike),
    fun _ => h.serde_judge_eq, forall₂_eraseP hflattened halike, .nil⟩

theorem alike_ofEnumeration (h : Regrouped e.attributes attributes)
    (hvariants : List.Forall₂ Variant.Regrouped e.variants variants) :
    (ofEnumeration e).Alike (ofEnumeration { e with attributes, variants }) := by
  have hconstants : variants.map Variant.constant = e.variants.map Variant.constant :=
    map_eq_of_forall₂ (fun _ _ h => h.constant_eq) hvariants
  refine ⟨rfl, ?_, rfl, fun _ => h.serde_judge_eq, .nil, .nil⟩
  rw [ofEnumeration, ofEnumeration, hconstants]

namespace Item.Regrouped

theorem declared?_eq (h : item.Regrouped item') : item'.declared? = item.declared? := by
  cases h <;> rfl

theorem declaration?_rel (h : item.Regrouped item') :
    Option.Rel Declaration.Alike (item.declaration? declared) (item'.declaration? declared) := by
  cases h with
  | same =>
    cases item.declaration? declared with
    | none => exact .none
    | some d => exact .some (.refl d)
  | inStructure h hfields => exact .some (alike_ofStructure h hfields)
  | inEnumeration h hvariants => exact .some (alike_ofEnumeration h hvariants)
  | inImplementation => exact .none

theorem methods_rel (h : item.Regrouped item') :
    List.Forall₂ Method.Alike (scope.methods item) (scope.methods item') := by
  cases h with
  | same => exact List.forall₂_same.2 fun m _ => .refl m
  | inStructure => exact .nil
  | inEnumeration => exact .nil
  | @inImplementation i functions h =>
    rw [Scope.methods_functions functions, Scope.methods]
    split
    · exact List.rel_filterMap (fun _ _ h => h.alike) h
    · exact .nil

end Item.Regrouped

/-! ## Files -/

/-- How entries are divided among lists makes no difference to what source files declare, but for the
annotations. -/
theorem alike_resolve (h : List.Forall₂ (List.Forall₂ Item.Regrouped) files files') :
    List.Forall₂ Declaration.Alike (resolve files).declarations (resolve files').declarations := by
  have hitems := List.rel_flatten h
  have hdeclared : files'.flatten.filterMap Item.declared? =
      files.flatten.filterMap Item.declared? :=
    filterMap_eq_of_forall₂ (fun _ _ h => h.declared?_eq) hitems
  rw [resolve_eq_ofList, resolve_eq_ofList, hdeclared]
  refine KeyedList.forall₂_ofList (fun _ _ h => h.name) ?_
  rw [List.forall₂_map_left_iff, List.forall₂_map_right_iff]
  refine (List.rel_filterMap (fun _ _ h => h.declaration?_rel) hitems).imp fun d d' hd => ?_
  refine ⟨hd.name, hd.kind, hd.superclass, hd.opinion, hd.fields, ?_⟩
  rw [hd.name]
  exact List.rel_flatMap hitems fun _ _ h => h.methods_rel

/-- Attributes with lists of entries, among them entries with nested lists, are read as they are
written. Values and flags are those of the entries, whatever lists these stand in; so how the entries
are divided among the lists makes no difference to the names, the superclasses and the constants of
what source files declare. -/
theorem resolve_regrouped :
    (∀ (g : Grammar) (parts : List (List Token × Attribute)) (rest : List Token) (b : Bool),
      (∀ p ∈ parts, IsAttribute g p.1 p.2) → Token.isMark "#" rest = false →
        (outerAttributes g).run ⟨parts.flatMap Prod.fst ++ rest, b⟩ =
          some (parts.map Prod.snd, ⟨rest, b⟩)) ∧
    (∀ (depth : Nat) (first : Identifier) (names : List Identifier) (content : List Token)
      (es : List Entry), IsEntryList (Grammar.of rules depth) content es → es ≠ [] →
        IsEntry (Grammar.of rules (depth + 1))
          (pathTokens first names ++ [.group .parenthesis content]) ⟨first :: names, .nested⟩) ∧
    (∀ as : List Attribute, ((entriesOf as).map Entry.key).Nodup →
      (∀ k v, k ≠ "value" → (annotationValue? (annotations as) "serde" k = some v ↔
        ∃ e ∈ entriesOf as, e.value? = some (k, v))) ∧
      ∀ n, n ≠ "serde" → (carries (annotations as) n = true ↔
        carries (annotations (otherAttributes as)) n = true ∨
          ∃ e ∈ entriesOf as, e.form = .flag ∧ "serde" ++ "::" ++ e.key = n)) ∧
    ∀ files files' : List (List Item), List.Forall₂ (List.Forall₂ Item.Regrouped) files files' →
      List.Forall₂ Declaration.Alike (resolve files).declarations
        (resolve files').declarations := by
  refine ⟨fun g parts rest b h hrest => outerAttributes_run h hrest,
    fun depth first names content es h hne => h.isEntry_nested hne,
    fun as hkeys => ⟨fun k v hk => annotationValue?_iff hkeys hk, fun n hn => carries_iff as hn⟩, ?_⟩
  exact fun files files' h => alike_resolve h

/-- `rename = "base"` -/
def renameEntry : List Token × Entry :=
  ([.word "rename" false, .mark '=' false, .literal (.text "base")],
    ⟨[⟨"rename", false⟩], .value (some (.text "base"))⟩)

/-- `flatten` -/
def flattenEntry : List Token × Entry := ([.word "flatten" false], ⟨[⟨"flatten", false⟩], .flag⟩)

/-- `bound(serialize)` -/
def boundEntry : List Token × Entry :=
  ([.word "bound" false, .group .parenthesis [.word "serialize" false]],
    ⟨[⟨"bound", false⟩], .nested⟩)

/-- `#[serde(content)]` -/
def listPart (content : List Token) (entries : List Entry) : List Token × Attribute :=
  ([.mark '#' false, .group .bracket [.word "serde" false, .group .parenthesis content]],
    ⟨[⟨"serde", false⟩], false, .list entries⟩)

/-- `#[serde(rename = "base", flatten, bound(serialize))]` -/
def oneList : List (List Token × Attribute) :=
  [listPart (renameEntry.1 ++ .mark ',' false :: (flattenEntry.1 ++ .mark ',' false :: boundEntry.1))
    [renameEntry.2, flattenEntry.2, boundEntry.2]]

/-- `#[serde(flatten)] #[serde(bound(serialize), rename = "base",)]` -/
def twoLists : List (List Token × Attribute) :=
  [listPart flattenEntry.1 [flattenEntry.2],
    listPart (boundEntry.1 ++ .mark ',' false :: (renameEntry.1 ++ [.mark ',' false]))
      [boundEntry.2, renameEntry.2]]

/-- A structure with one field, which has these attributes. -/
def truckFiles (attributes : List Attribute) : List (List Item) :=
  [[.structure ⟨[], ⟨"Truck", false⟩,
    [⟨attributes, ⟨"base", false⟩, .path .relative [⟨⟨"Vehicle", false⟩, []⟩]⟩]⟩]]

theorem truckFiles_regrouped :
    (outerAttributes (Grammar.of rules 4)).run ⟨oneList.flatMap Prod.fst ++ [], false⟩ =
      some (oneList.map Prod.snd, ⟨[], false⟩) ∧
    (outerAttributes (Grammar.of rules 4)).run ⟨twoLists.flatMap Prod.fst ++ [], false⟩ =
      some (twoLists.map Prod.snd, ⟨[], false⟩) ∧
    annotationValue? (annotations (twoLists.map Prod.snd)) "serde" "rename" = some "base" ∧
    carries (annotations (twoLists.map Prod.snd)) "serde::flatten" = true ∧
    List.Forall₂ Declaration.Alike
      (resolve (truckFiles (oneList.map Prod.snd))).declarations
      (resolve (truckFiles (twoLists.map Prod.snd))).declarations ∧
    (resolve (truckFiles (oneList.map Prod.snd))).declarations.map (·.superclass) =
      [some ⟨"Vehicle", []⟩] := by
  obtain ⟨hread, hnested, hanswers, hfiles⟩ := resolve_regrouped
  obtain ⟨hvalues, hflags⟩ := hanswers (twoLists.map Prod.snd) (by decide)
  have hrename : IsEntry (Grammar.of rules 4) renameEntry.1 renameEntry.2 :=
    @IsEntry.value _ ⟨"rename", false⟩ [] false _ _ (reads_literal 1 (.text "base"))
  have hflatten : IsEntry (Grammar.of rules 4) flattenEntry.1 flattenEntry.2 :=
    @IsEntry.flag _ ⟨"flatten", false⟩ []
  have hbound : IsEntry (Grammar.of rules 4) boundEntry.1 boundEntry.2 :=
    hnested 3 ⟨"bound", false⟩ [] _ _ (.last (@IsEntry.flag _ ⟨"serialize", false⟩ []))
      (List.cons_ne_nil _ _)
  refine ⟨hread _ _ _ _ ?_ rfl, hread _ _ _ _ ?_ rfl, (hvalues _ _ (by decide)).2 ?_,
    (hflags _ (by decide)).2 (.inr ?_), hfiles _ _ ?_, by decide +kernel⟩
  · rintro p (_ | ⟨_, ⟨⟩⟩)
    exact .list (.cons hrename (.cons hflatten (.last hbound)))
  · rintro p (_ | ⟨_, _ | ⟨_, ⟨⟩⟩⟩)
    · exact .list (.last hflatten)
    · exact .list (.cons hbound (.cons hrename .nil))
  · exact ⟨renameEntry.2, by decide, by decide⟩
  · exact ⟨flattenEntry.2, by decide, rfl, by decide⟩
  · refine .cons (.cons (.inStructure .same (.cons (.mk ?_) .nil)) .nil) .nil
    refine .entries ?_ (by decide) rfl
    exact @List.perm_append_comm _ [renameEntry.2] [flattenEntry.2, boundEntry.2]

end Source

end ApiModels
