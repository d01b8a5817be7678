import ApiModels.Options
import ApiModels.Proofs.Walk.Agreement

/-!
# Detected conventions are enough

A table reads annotations by their names (`AnnotationTable.names`), and all names that the table of a
convention reads are covered by the convention. So a convention that is not detected in a catalog has
no opinion on anything in it, and the chain of the detected conventions gives the names that the
chain of all conventions gives.
-/

namespace ApiModels

/-- The annotations of a subject. -/
def Subject.annotations : Subject → List Annotation
  | .type _ none => []
  | .type _ (some d) => d.annotations
  | .field f => f.annotations
  | .method g => g.annotations

variable {c : Catalog} {s : Subject} {a : Annotation} {x : Convention}
  {annotations : List Annotation}

namespace AnnotationTable

variable {table : AnnotationTable} {sources : List NameSource} {name key : String}

/-- The names of the annotations that a table reads. -/
def names (table : AnnotationTable) : List String :=
  table.ignore ++ (table.element ++ table.root).map (·.owner)

theorem annotationValue?_eq_none (h : ∀ a ∈ annotations, a.name ≠ name) :
    annotationValue? annotations name key = none := by
  have hnone : annotations.filter (·.name == name) = [] :=
    List.filter_eq_nil_iff.2 fun a ha => by simpa using h a ha
  rw [annotationValue?, hnone, List.findSome?_nil]

theorem judge_eq_missing (hignore : ∀ n ∈ table.ignore, ∀ a ∈ annotations, a.name ≠ n)
    (hsources : ∀ s ∈ sources, ∀ a ∈ annotations, a.name ≠ s.owner) :
    table.judge sources annotations = .missing := by
  have hkept : table.ignore.any (carries annotations) = false := by
    simpa [carries] using hignore
  have hvalues : (sources.filterMap fun s => annotationValue? annotations s.owner s.key) = [] :=
    List.filterMap_eq_nil_iff.2 fun s hs => annotationValue?_eq_none (hsources s hs)
  simp [judge, hkept, hvalues]

/-- A table has no opinion where none of the annotations that it reads occur. -/
theorem opinion_eq_missing (h : ∀ a ∈ s.annotations, a.name ∉ table.names) :
    table.opinion s = .missing := by
  have hignore : ∀ n ∈ table.ignore, ∀ a ∈ s.annotations, a.name ≠ n := by
    rintro n hn a ha rfl
    exact h a ha (List.mem_append_left _ hn)
  have hsources : ∀ r ∈ table.element ++ table.root, ∀ a ∈ s.annotations, a.name ≠ r.owner :=
    fun r hr a ha heq => h a ha (List.mem_append_right _ (heq ▸ List.mem_map_of_mem hr))
  cases s with
  | type t declaration =>
    cases declaration with
    | none => rfl
    | some d => exact judge_eq_missing hignore fun r hr => hsources r (List.mem_append_right _ hr)
  | field f => exact judge_eq_missing hignore fun r hr => hsources r (List.mem_append_left _ hr)
  | method g => exact judge_eq_missing hignore fun r hr => hsources r (List.mem_append_left _ hr)

end AnnotationTable

namespace Convention

theorem covers_of_mem_names (h : a.name ∈ x.table.names) : x.covers a = true := by
  have hnames : ∀ n ∈ x.table.names, x.covers (.marker n) = true := by
    cases x <;> decide +kernel
  exact hnames a.name h

theorem mem_detect : x ∈ detect c ↔
    ∃ d ∈ c.declarations, ∃ a ∈ d.allAnnotations, x.covers a = true := by
  have hall : x ∈ all := by cases x <;> decide
  simp [detect, hall]

/-- What the catalog shows of a subject is scanned for conventions. -/
theorem exists_mem_allAnnotations (hs : c.Shows s) (ha : a ∈ s.annotations) :
    ∃ d ∈ c.declarations, a ∈ d.allAnnotations := by
  cases s with
  | type t declaration =>
    cases declaration with
    | none => cases ha
    | some d =>
      have hmem : a ∈ d.allAnnotations :=
        List.mem_append_left _ (List.mem_append_left _ ha)
      exact ⟨d, hs d rfl, hmem⟩
  | field f =>
    obtain ⟨d, hd, hf⟩ := hs
    have hmem : a ∈ d.fields.flatMap (·.annotations) := List.mem_flatMap.2 ⟨f, hf, ha⟩
    exact ⟨d, hd, List.mem_append_left _ (List.mem_append_right _ hmem)⟩
  | method g =>
    obtain ⟨d, hd, hg⟩ := hs
    have hmem : a ∈ d.methods.flatMap (·.annotations) := List.mem_flatMap.2 ⟨g, hg, ha⟩
    exact ⟨d, hd, List.mem_append_right _ hmem⟩

/-- A convention that is not detected has no opinion on what the catalog shows. -/
theorem opinion_eq_missing_of_not_mem_detect (hx : x ∉ detect c) (hs : c.Shows s) :
    x.table.opinion s = .missing := by
  refine AnnotationTable.opinion_eq_missing fun a ha hname => hx ?_
  obtain ⟨d, hd, hmem⟩ := exists_mem_allAnnotations hs ha
  exact mem_detect.2 ⟨d, hd, a, hmem, covers_of_mem_names hname⟩

/-- Conventions without an opinion can be left out of a chain. -/
theorem firstOpinion_conventionChain_filter {p : Convention → Bool} {conventions : List Convention}
    (h : ∀ x ∈ conventions, p x = false → x.table.opinion s = .missing) :
    firstOpinion (conventionChain (conventions.filter p)) s =
      firstOpinion (conventionChain conventions) s := by
  induction conventions with
  | nil => rfl
  | cons x rest ih =>
    have hcons (cs : List Convention) : firstOpinion (conventionChain (x :: cs)) s =
        (x.table.opinion s).orElse (firstOpinion (conventionChain cs) s) := by
      simp only [conventionChain, List.map_cons, List.cons_append, firstOpinion,
        Translator.opinion]
    have ih := ih fun y hy => h y (List.mem_cons_of_mem _ hy)
    cases hx : p x with
    | true => rw [List.filter_cons_of_pos hx, hcons, hcons, ih]
    | false =>
      rw [List.filter_cons_of_neg (by simp [hx]), hcons, h x List.mem_cons_self hx, ih]
      rfl

end Convention

namespace Options

variable {o : Options}

/-- Without configured conventions the detected ones are in use, in the order of all conventions. -/
theorem exists_effectiveConventions (h : o.conventions = []) :
    ∃ p : Convention → Bool, o.effectiveConventions (Convention.detect c) = Convention.all.filter p ∧
      ∀ x ∈ Convention.detect c, p x = true := by
  cases hdetect : Convention.detect c with
  | nil =>
    refine ⟨(· ∈ fallbackConventions), ?_, fun x hx => nomatch hx⟩
    rw [effectiveConventions, h]
    decide
  | cons x rest =>
    rw [← hdetect]
    have heffective : o.effectiveConventions (Convention.detect c) = Convention.detect c := by
      rw [effectiveConventions, h, hdetect]
      rfl
    exact ⟨_, heffective, fun y hy => (List.mem_filter.1 hy).2⟩

/-- Where no conventions are configured, the chain of the detected ones gives every field, method and
type of the catalog the name that the chain of all conventions gives it; so both chains lead to the
same models. -/
theorem chain_detect (o : Options) (c : Catalog) (h : o.conventions = []) :
    (∀ s, c.Shows s →
      firstOpinion (o.chain (Convention.detect c)) s = firstOpinion (conventionChain Convention.all) s) ∧
    ∀ policy root, Walk.models ⟨c, policy, o.chain (Convention.detect c)⟩ root =
      Walk.models ⟨c, policy, conventionChain Convention.all⟩ root := by
  have hopinion (s) (hs : c.Shows s) :
      firstOpinion (o.chain (Convention.detect c)) s = firstOpinion (conventionChain Convention.all) s := by
    obtain ⟨p, heffective, hdetected⟩ := o.exists_effectiveConventions (c := c) h
    rw [chain, heffective]
    refine Convention.firstOpinion_conventionChain_filter fun x _ hx => ?_
    refine Convention.opinion_eq_missing_of_not_mem_detect (fun hmem => ?_) hs
    exact Bool.noConfusion (hx.symm.trans (hdetected x hmem))
  exact ⟨hopinion, fun policy root => Walk.models_congr_chain policy root hopinion⟩

/-- A catalog in which one convention is seen, on a type and on its fields. -/
def ledger : Catalog :=
  .ofList [
    { name := "app::Entry"
      annotations := [{ name := "serde", values := .ofList [("rename", "entry")] }]
      fields := [
        { name := "amount", type := { name := "i64" }
          annotations := [{ name := "serde", values := .ofList [("rename", "cents")] }] },
        { name := "cache", type := { name := "String" }
          annotations := [.marker "serde::skip"] }] }]

theorem ledger_chain_detect : ({} : Options).conventions = [] ∧
    Convention.detect ledger = [.serde] ∧
    firstOpinion (({} : Options).chain (Convention.detect ledger))
      (.type { name := "app::Entry" } (ledger.declaration? { name := "app::Entry" })) =
        .named "entry" ∧
    Walk.models ⟨ledger, {}, ({} : Options).chain (Convention.detect ledger)⟩ { name := "app::Entry" } =
      Walk.models ⟨ledger, {}, conventionChain Convention.all⟩ { name := "app::Entry" } := by
  obtain ⟨hopinion, hmodels⟩ := chain_detect {} ledger rfl
  refine ⟨rfl, by decide +kernel, ?_, hmodels {} { name := "app::Entry" }⟩
  rw [hopinion _ (ledger.shows_type _)]
  decide +kernel

end Options

end ApiModels
