import ApiModels.Proofs.Naming.Detection

/-!
# Which annotation names a subject

A mark to leave a subject out counts before every name. Of names the first usable value counts, in
the order of the sources and, for one source, in the order of the annotations (`Judged`). Of each
source a table hears only the first value, though. So it keeps to this order among the sources in
which no unusable value stands before a usable one (`opinion_eq_iff`), and the usable values of the
others are lost.
-/

namespace ApiModels

variable {annotations : List Annotation} {source : NameSource} {ss : List NameSource}
  {o : Opinion} {v : String} {vs : List String}

namespace NameSource

/-- The values that annotations give to a source of names, in order. -/
def offers (source : NameSource) (annotations : List Annotation) : List String :=
  (annotations.filter (·.name == source.owner)).filterMap (·.values.get? source.key)

/-- Whether an unusable value stands before a usable one. -/
def hides (source : NameSource) (annotations : List Annotation) : Bool :=
  match source.offers annotations with
  | [] => false
  | first :: rest => !AnnotationTable.isUsable first && rest.any AnnotationTable.isUsable

theorem annotationValue?_eq_head? :
    annotationValue? annotations source.owner source.key = (source.offers annotations).head? := by
  rw [annotationValue?, offers, List.head?_filterMap]

end NameSource

namespace AnnotationTable

variable {table : AnnotationTable} {s : Subject}

/-- The sources of names that count for a subject. -/
def sources (table : AnnotationTable) : Subject → List NameSource
  | .type _ _ => table.root
  | .field _ => table.element
  | .method _ => table.element

/-- The opinion on a subject with these annotations and, for its name, these values in the order of
their priority. -/
inductive Judged (table : AnnotationTable) (annotations : List Annotation) (vs : List String) :
    Opinion → Prop
  /-- A mark to leave out counts before every name. -/
  | ignored {a : Annotation} (mem : a ∈ annotations) (mark : a.name ∈ table.ignore) :
    Judged table annotations vs .ignored
  /-- Without a mark the first usable value is the name. -/
  | named (before after : List String) (v : String)
    (unmarked : ∀ a ∈ annotations, a.name ∉ table.ignore) (split : vs = before ++ v :: after)
    (unusable : ∀ u ∈ before, isUsable u = false) (usable : isUsable v = true) :
    Judged table annotations vs (.named v)
  /-- Without a mark and without a usable value there is no opinion. -/
  | missing (unmarked : ∀ a ∈ annotations, a.name ∉ table.ignore)
    (unusable : ∀ u ∈ vs, isUsable u = false) : Judged table annotations vs .missing

theorem any_carries_iff :
    table.ignore.any (carries annotations) = true ↔ ∃ a ∈ annotations, a.name ∈ table.ignore := by
  simp only [carries, List.any_eq_true, beq_iff_eq]
  constructor
  · rintro ⟨n, hn, a, ha, rfl⟩
    exact ⟨a, ha, hn⟩
  · rintro ⟨a, ha, hmark⟩
    exact ⟨a.name, hmark, a, ha, rfl⟩

theorem find?_isUsable_eq_some_iff : vs.find? isUsable = some v ↔
    isUsable v = true ∧ ∃ before after, vs = before ++ v :: after ∧
      ∀ u ∈ before, isUsable u = false := by
  simp [List.find?_eq_some_iff_append]

theorem find?_isUsable_eq_none_iff : vs.find? isUsable = none ↔ ∀ u ∈ vs, isUsable u = false := by
  simp

/-- The opinion as a function of the mark and of the first usable value. -/
theorem judged_iff : Judged table annotations vs o ↔
    (if table.ignore.any (carries annotations) then .ignored
      else match vs.find? isUsable with
        | some v => .named v
        | none => .missing) = o := by
  by_cases hmarked : ∃ a ∈ annotations, a.name ∈ table.ignore
  · rw [if_pos (any_carries_iff.2 hmarked)]
    obtain ⟨a, ha, hmark⟩ := hmarked
    constructor
    · intro h
      cases h with
      | ignored _ _ => rfl
      | named _ _ _ unmarked _ _ _ | missing unmarked _ => exact (unmarked a ha hmark).elim
    · rintro rfl
      exact .ignored ha hmark
  · rw [if_neg (mt any_carries_iff.1 hmarked)]
    have unmarked : ∀ a ∈ annotations, a.name ∉ table.ignore :=
      fun a ha hmark => hmarked ⟨a, ha, hmark⟩
    constructor
    · intro h
      cases h with
      | ignored mem mark => exact (unmarked _ mem mark).elim
      | named _ _ _ _ split unusable usable =>
        rw [find?_isUsable_eq_some_iff.2 ⟨usable, _, _, split, unusable⟩]
      | missing _ unusable => rw [find?_isUsable_eq_none_iff.2 unusable]
    · rintro rfl
      cases hfind : vs.find? isUsable with
      | some v =>
        obtain ⟨usable, before, after, split, unusable⟩ := find?_isUsable_eq_some_iff.1 hfind
        exact .named before after v unmarked split unusable usable
      | none => exact .missing unmarked (find?_isUsable_eq_none_iff.1 hfind)

/-- The first values of all sources lead to the same name as all values of the sources in which no
unusable value stands before a usable one. -/
theorem find?_first_offers :
    (ss.filterMap fun r => (r.offers annotations).head?).find? isUsable =
      ((ss.filter (!·.hides annotations)).flatMap (·.offers annotations)).find? isUsable := by
  induction ss with
  | nil => rfl
  | cons r rest ih =>
    cases hoffers : r.offers annotations with
    | nil =>
      have hhides : r.hides annotations = false := by rw [NameSource.hides, hoffers]
      simp [hoffers, hhides, ih]
    | cons first others =>
      have hhides : r.hides annotations = (!isUsable first && others.any isUsable) := by
        rw [NameSource.hides, hoffers]
      cases hfirst : isUsable first with
      | true => simp [hoffers, hhides, hfirst]
      | false =>
        cases hothers : others.any isUsable with
        | true => simp [hoffers, hhides, hfirst, hothers, ih]
        | false =>
          have hnone : others.find? isUsable = none := by simpa using hothers
          simp [hoffers, hhides, hfirst, hothers, hnone, ih]

theorem judge_eq_iff : table.judge ss annotations = o ↔ Judged table annotations
    ((ss.filter (!·.hides annotations)).flatMap (·.offers annotations)) o := by
  have hfirst : (ss.filterMap fun r => annotationValue? annotations r.owner r.key) =
      ss.filterMap fun r => (r.offers annotations).head? :=
    List.filterMap_congr fun r _ => NameSource.annotationValue?_eq_head?
  rw [judged_iff, ← find?_first_offers, ← hfirst]
  exact Iff.rfl

theorem opinion_eq_iff : table.opinion s = o ↔ Judged table s.annotations
    (((table.sources s).filter (!·.hides s.annotations)).flatMap (·.offers s.annotations)) o := by
  match s with
  | .type t none =>
    -- Without annotations there are no marks and no values, whatever the sources are.
    have hmarked : table.ignore.any (carries []) = false := by simp [carries]
    have hvalues : ((table.sources (.type t none)).filter (!·.hides [])).flatMap (·.offers []) = [] :=
      List.flatMap_eq_nil_iff.2 fun _ _ => rfl
    rw [Subject.annotations, hvalues, judged_iff, hmarked]
    rfl
  | .type _ (some _) | .field _ | .method _ => exact judge_eq_iff

/-- A table's opinion on a subject: it is left out if and only if it has a mark, and otherwise has the
first usable value as its name, in the order of the sources and then of the annotations, among the
sources in which no unusable value stands before a usable one. Where all sources are such this is the
first usable value of all. Of a type without a declaration there is no opinion. -/
theorem opinion_prioritized (table : AnnotationTable) (s : Subject) :
    (∀ o, table.opinion s = o ↔ Judged table s.annotations
      (((table.sources s).filter (!·.hides s.annotations)).flatMap (·.offers s.annotations)) o) ∧
    ((∀ r ∈ table.sources s, r.hides s.annotations = false) →
      ∀ o, table.opinion s = o ↔
        Judged table s.annotations ((table.sources s).flatMap (·.offers s.annotations)) o) ∧
    ∀ t, table.opinion (.type t none) = .missing := by
  refine ⟨fun o => opinion_eq_iff, fun h o => ?_, fun t => rfl⟩
  have hall : (table.sources s).filter (!·.hides s.annotations) = table.sources s :=
    List.filter_eq_self.2 fun r hr => by simp [h r hr]
  rw [opinion_eq_iff, hall]

/-- A table with two sources of names for one annotation. -/
def shopTable : AnnotationTable where
  ignore := ["shop.Hidden"]
  element := [⟨"shop.Name", "long"⟩, ⟨"shop.Name", "short"⟩]

/-- A field with two names, of which only the second can be used, and that only for the second
source. -/
def shopField : Field where
  name := "orderId"
  type := ⟨"long", []⟩
  annotations :=
    [⟨"shop.Name", .ofList [("long", "##default")]⟩, ⟨"shop.Name", .ofList [("short", "order_id")]⟩]

theorem shopField_prioritized :
    (∀ r ∈ shopTable.sources (.field shopField), r.hides shopField.annotations = false) ∧
    Judged shopTable shopField.annotations ["##default", "order_id"] (.named "order_id") ∧
    shopTable.opinion (.field shopField) = .named "order_id" := by
  obtain ⟨-, hall, -⟩ := opinion_prioritized shopTable (.field shopField)
  have hhides : ∀ r ∈ shopTable.sources (.field shopField),
      r.hides shopField.annotations = false := by decide +kernel
  have hjudged : Judged shopTable shopField.annotations ["##default", "order_id"]
      (.named "order_id") :=
    .named ["##default"] [] "order_id" (by decide +kernel) rfl (by decide +kernel) (by decide +kernel)
  exact ⟨hhides, hjudged, (hall hhides _).2 hjudged⟩

/-- A placeholder on a first annotation hides the name on a second one of the same kind, although the
first usable value of the only source is the name. -/
theorem placeholder_hides_name :
    ∃ f : Field, f.annotations.map (·.name) =
        ["javax.xml.bind.annotation.XmlElement", "javax.xml.bind.annotation.XmlElement"] ∧
      ((Convention.table .jaxb).sources (.field f)).flatMap (·.offers f.annotations) =
        ["##default", "order_id"] ∧
      Judged (Convention.table .jaxb) f.annotations ["##default", "order_id"] (.named "order_id") ∧
      (Convention.table .jaxb).opinion (.field f) = .missing := by
  refine ⟨{
    name := "orderId"
    type := ⟨"long", []⟩
    annotations :=
      [⟨"javax.xml.bind.annotation.XmlElement", .ofList [("name", "##default")]⟩,
        ⟨"javax.xml.bind.annotation.XmlElement", .ofList [("name", "order_id")]⟩] }, rfl, ?_, ?_, ?_⟩
  · decide +kernel
  · exact .named ["##default"] [] "order_id" (by decide +kernel) rfl (by decide +kernel)
      (by decide +kernel)
  · decide +kernel

end AnnotationTable

end ApiModels
