import Mathlib.Data.List.Forall2
import Mathlib.Data.List.Sort
import ApiModels.Proofs.KeyedList
import ApiModels.Proofs.Naming.Detection

/-!
# Conventions detected in merged catalogs

An annotation belongs to at most one convention (`Convention.Belongs.unique`), and a convention is
detected if and only if an annotation of the catalog belongs to it (`Convention.mem_detect_iff`). So
detection depends neither on the order in which things are declared nor on that in which conventions
are met; and of a merged catalog it shows what the first part shows, and what those declarations of
the second part show that were not dropped (`Convention.mem_detect_extend_iff`).
-/

namespace ApiModels

/-! ## Reordered catalogs -/

section
variable {α β : Type} {r : α → β → Prop} {p : α → Prop} {q : β → Prop} {as : List α} {bs : List β}

/-- The lists are related member by member once the first is put in another order. -/
def Permuted (r : α → β → Prop) (as : List α) (bs : List β) : Prop :=
  ∃ as', as.Perm as' ∧ List.Forall₂ r as' bs

theorem Permuted.exists_iff (h : Permuted r as bs) (hpq : ∀ a b, r a b → (p a ↔ q b)) :
    (∃ a ∈ as, p a) ↔ ∃ b ∈ bs, q b := by
  obtain ⟨as', hperm, hrel⟩ := h
  simp only [hperm.mem_iff]
  clear hperm
  induction hrel with
  | nil => simp
  | @cons a b _ _ hab _ ih =>
    rw [List.exists_mem_cons_iff, List.exists_mem_cons_iff, hpq a b hab, ih]

end

/-- The fields are the same but for the order of their annotations. -/
structure Field.Rearranged (f g : Field) : Prop where
  annotations : f.annotations.Perm g.annotations
  rest : { f with annotations := g.annotations } = g

/-- The methods are the same but for the order of their annotations. -/
structure Method.Rearranged (m n : Method) : Prop where
  annotations : m.annotations.Perm n.annotations
  rest : { m with annotations := n.annotations } = n

/-- The declarations are the same but for the order of members and annotations. -/
structure Declaration.Rearranged (d e : Declaration) : Prop where
  annotations : d.annotations.Perm e.annotations
  fields : Permuted Field.Rearranged d.fields e.fields
  methods : Permuted Method.Rearranged d.methods e.methods
  rest : { d with annotations := e.annotations, fields := e.fields, methods := e.methods } = e

/-- The catalogs are the same but for the order of declarations, members and annotations. -/
def Catalog.Rearranged (c c' : Catalog) : Prop :=
  Permuted Declaration.Rearranged c.declarations c'.declarations

/-! ## Where annotations stand -/

/-- The annotation stands on the declared type or on one of its members. -/
inductive Declaration.Annotated (d : Declaration) (a : Annotation) : Prop where
  | type : a ∈ d.annotations → d.Annotated a
  | field (f : Field) : f ∈ d.fields → a ∈ f.annotations → d.Annotated a
  | method (m : Method) : m ∈ d.methods → a ∈ m.annotations → d.Annotated a

namespace Declaration

variable {d e : Declaration} {a : Annotation}

theorem annotated_iff : d.Annotated a ↔ a ∈ d.annotations ∨ (∃ f ∈ d.fields, a ∈ f.annotations) ∨
    ∃ m ∈ d.methods, a ∈ m.annotations := by
  constructor
  · rintro (h | ⟨f, hf, h⟩ | ⟨m, hm, h⟩)
    · exact .inl h
    · exact .inr (.inl ⟨f, hf, h⟩)
    · exact .inr (.inr ⟨m, hm, h⟩)
  · rintro (h | ⟨f, hf, h⟩ | ⟨m, hm, h⟩)
    · exact .type h
    · exact .field f hf h
    · exact .method m hm h

theorem mem_allAnnotations : a ∈ d.allAnnotations ↔ d.Annotated a := by
  rw [annotated_iff, allAnnotations, List.mem_append, List.mem_append, List.mem_flatMap,
    List.mem_flatMap, or_assoc]

theorem Rearranged.annotated_iff (h : d.Rearranged e) : d.Annotated a ↔ e.Annotated a := by
  rw [Declaration.annotated_iff, Declaration.annotated_iff, h.annotations.mem_iff,
    h.fields.exists_iff fun f g hfg => hfg.annotations.mem_iff,
    h.methods.exists_iff fun m n hmn => hmn.annotations.mem_iff]

end Declaration

/-! ## Detection -/

namespace Convention

variable {a : Annotation} {x y : Convention} {c c' : Catalog}

/-- The annotation has a name in the package of a convention, or the one annotation name that is a
convention's own. -/
inductive Belongs (a : Annotation) : Convention → Prop where
  | package (x : Convention) : x.package.toList <+: a.name.toList → Belongs a x
  | own : a.name = "serde" → Belongs a .serde

theorem covers_iff : x.covers a = true ↔ Belongs a x := by
  rw [covers, Bool.or_eq_true, List.isPrefixOf_iff_prefix, Bool.and_eq_true, beq_iff_eq, beq_iff_eq]
  constructor
  · rintro (h | ⟨rfl, h⟩)
    · exact .package x h
    · exact .own h
  · rintro (⟨_, h⟩ | h)
    · exact .inl h
    · exact .inr ⟨rfl, h⟩

/-- No package begins another one, nor the name of the annotation outside all packages. -/
theorem Belongs.unique (hx : Belongs a x) (hy : Belongs a y) : x = y := by
  have hpackages : ∀ x y : Convention, x.package.toList <+: y.package.toList → x = y := by
    intro x y
    cases x <;> cases y <;> decide +kernel
  have hown : ∀ x : Convention, ¬x.package.toList <+: "serde".toList := by
    intro x
    cases x <;> decide +kernel
  cases hx with
  | package x hx =>
    cases hy with
    | package y hy =>
      rcases List.prefix_or_prefix_of_prefix hx hy with h | h
      · exact hpackages x y h
      · exact (hpackages y x h).symm
    | own hname => exact (hown x (hname ▸ hx)).elim
  | own hname =>
    cases hy with
    | package y hy => exact (hown y (hname ▸ hy)).elim
    | own _ => rfl

/-- The place of a convention in a chain. -/
def rank : Convention → Nat
  | .jaxb => 0
  | .jackson => 1
  | .serde => 2

theorem rank_inj (h : x.rank = y.rank) : x = y := by
  cases x <;> cases y <;> simp_all [rank]

/-- Detected conventions stand in the order of chains, each once. -/
theorem pairwise_detect (c : Catalog) : (detect c).Pairwise fun x y => x.rank < y.rank := by
  have hall : all.Pairwise fun x y => x.rank < y.rank := by decide
  exact hall.sublist List.filter_sublist

theorem mem_detect_iff :
    x ∈ detect c ↔ ∃ d ∈ c.declarations, ∃ a, d.Annotated a ∧ Belongs a x := by
  simp only [mem_detect, covers_iff, Declaration.mem_allAnnotations]

theorem eq_of_pairwise_rank {xs ys : List Convention} (hxs : xs.Pairwise fun x y => x.rank < y.rank)
    (hys : ys.Pairwise fun x y => x.rank < y.rank) (h : ∀ x, x ∈ xs ↔ x ∈ ys) : xs = ys := by
  have : Std.Irrefl fun x y : Convention => x.rank < y.rank := ⟨fun x => Nat.lt_irrefl x.rank⟩
  have : Std.Antisymm fun x y : Convention => x.rank < y.rank :=
    ⟨fun x y hxy hyx => absurd hyx (Nat.lt_asymm hxy)⟩
  exact hxs.eq_of_mem_iff hys h

theorem detect_congr (h : ∀ x, x ∈ detect c' ↔ x ∈ detect c) : detect c' = detect c :=
  eq_of_pairwise_rank (pairwise_detect c') (pairwise_detect c) h

/-- Conventions that were collected in any order are those detected, once they are sorted. -/
theorem mergeSort_eq_detect {found : List Convention} (nodup : found.Nodup)
    (h : ∀ x, x ∈ found ↔ x ∈ detect c) :
    (found.mergeSort fun x y => decide (x.rank ≤ y.rank)) = detect c := by
  have hperm : (found.mergeSort fun x y => decide (x.rank ≤ y.rank)).Perm found :=
    List.mergeSort_perm _ _
  have hsorted : (found.mergeSort fun x y => decide (x.rank ≤ y.rank)).Pairwise
      fun x y => decide (x.rank ≤ y.rank) = true := by
    refine List.pairwise_mergeSort (fun x y z hxy hyz => ?_) (fun x y => ?_) found
    · exact decide_eq_true (Nat.le_trans (of_decide_eq_true hxy) (of_decide_eq_true hyz))
    · rw [Bool.or_eq_true, decide_eq_true_iff, decide_eq_true_iff]
      exact Nat.le_total x.rank y.rank
  refine eq_of_pairwise_rank ?_ (pairwise_detect c) fun x => hperm.mem_iff.trans (h x)
  -- each convention comes up once and has a place of its own, so the order is strict
  refine (hsorted.and (hperm.nodup_iff.2 nodup)).imp fun hxy => ?_
  exact Nat.lt_of_le_of_ne (of_decide_eq_true hxy.1) fun heq => hxy.2 (rank_inj heq)

theorem detect_of_rearranged (h : c.Rearranged c') : detect c' = detect c := by
  refine detect_congr fun x => ?_
  rw [mem_detect_iff, mem_detect_iff]
  refine (h.exists_iff fun d e hde => ?_).symm
  simp only [hde.annotated_iff]

/-! ## Merged catalogs -/

variable {a b : Catalog}

/-- A merged catalog shows what the first part shows, and what the declarations of the second part
show whose names are new. -/
theorem mem_detect_extend_iff : x ∈ detect (KeyedList.extend a b) ↔ x ∈ detect a ∨
    ∃ d ∈ b.declarations, d.name ∉ KeyedList.keys a ∧ ∃ m, d.Annotated m ∧ Belongs m x := by
  rw [mem_detect_iff, mem_detect_iff]
  constructor
  · rintro ⟨d, hd, hx⟩
    rcases KeyedList.mem_extend.1 hd with hd | ⟨hnew, hd⟩
    · exact .inl ⟨d, hd, hx⟩
    · exact .inr ⟨d, hd, hnew, hx⟩
  · rintro (⟨d, hd, hx⟩ | ⟨d, hd, hnew, hx⟩)
    · exact ⟨d, KeyedList.mem_extend.2 (.inl hd), hx⟩
    · exact ⟨d, KeyedList.mem_extend.2 (.inr ⟨hnew, hd⟩), hx⟩

theorem mem_detect_extend_of_left (h : x ∈ detect a) : x ∈ detect (KeyedList.extend a b) :=
  mem_detect_extend_iff.2 (.inl h)

theorem mem_detect_or_of_extend (h : x ∈ detect (KeyedList.extend a b)) :
    x ∈ detect a ∨ x ∈ detect b := by
  refine (mem_detect_extend_iff.1 h).imp_right ?_
  rintro ⟨d, hd, -, hx⟩
  exact mem_detect_iff.2 ⟨d, hd, hx⟩

theorem mem_detect_extend_of_right (hnames : ∀ n ∈ KeyedList.keys b, n ∉ KeyedList.keys a)
    (h : x ∈ detect b) : x ∈ detect (KeyedList.extend a b) := by
  obtain ⟨d, hd, hx⟩ := mem_detect_iff.1 h
  have hname : d.name ∈ KeyedList.keys b := List.mem_map_of_mem hd
  exact mem_detect_extend_iff.2 (.inr ⟨d, hd, hnames _ hname, hx⟩)

/-- The conventions detected in a merged catalog stand in the order of chains, each once. All that
are detected in the first part are among them, and of the others only what is detected in the
second; if the parts declare no common name, it is all of both. A convention is detected if and
only if an annotation belongs to it, on a type or on a member, and each annotation belongs to one
convention at most; so the order of declarations, members and annotations makes no difference, nor
does the order in which conventions are collected before they are sorted. -/
theorem detect_extend :
    (∀ a b : Catalog,
      (detect (KeyedList.extend a b)).Pairwise (fun x y => x.rank < y.rank) ∧
      (∀ x ∈ detect a, x ∈ detect (KeyedList.extend a b)) ∧
      (∀ x ∈ detect (KeyedList.extend a b), x ∈ detect a ∨ x ∈ detect b) ∧
      ((∀ n ∈ KeyedList.keys b, n ∉ KeyedList.keys a) →
        ∀ x, x ∈ detect (KeyedList.extend a b) ↔ x ∈ detect a ∨ x ∈ detect b)) ∧
    (∀ c c' : Catalog, c.Rearranged c' → detect c' = detect c) ∧
    (∀ (c : Catalog) (x : Convention), x ∈ detect c ↔
      ∃ d ∈ c.declarations, ∃ m, d.Annotated m ∧ Belongs m x) ∧
    (∀ (m : Annotation) (x y : Convention), Belongs m x → Belongs m y → x = y) ∧
    ∀ (c : Catalog) (found : List Convention), found.Nodup →
      (∀ x, x ∈ found ↔ ∃ d ∈ c.declarations, ∃ m, d.Annotated m ∧ Belongs m x) →
        (found.mergeSort fun x y => decide (x.rank ≤ y.rank)) = detect c := by
  refine ⟨fun a b => ⟨pairwise_detect _, fun x hx => mem_detect_extend_of_left hx,
      fun x hx => mem_detect_or_of_extend hx, fun hnames x => ⟨mem_detect_or_of_extend, ?_⟩⟩,
    fun c c' h => detect_of_rearranged h, fun c x => mem_detect_iff,
    fun m x y hx hy => hx.unique hy, fun c found nodup hfound => ?_⟩
  · rintro (hx | hx)
    · exact mem_detect_extend_of_left hx
    · exact mem_detect_extend_of_right hnames hx
  · exact mergeSort_eq_detect nodup fun x => (hfound x).trans mem_detect_iff.symm

/-- A catalog with annotations on a type and on a field. -/
def orders : Catalog :=
  .ofList [
    { name := "com.acme.Order"
      annotations := [.marker "com.fasterxml.jackson.annotation.JsonRootName"] },
    { name := "app::Item"
      fields := [{ name := "id", type := { name := "u32" }, annotations := [.marker "serde"] }] }]

/-- A type with a static method that carries two annotations, one of them of a convention. -/
def invoice (annotations : List Annotation) : Declaration where
  name := "com.acme.Invoice"
  methods := [{ name := "draft", isStatic := true, returns := { name := "com.acme.Invoice" }
                annotations }]

/-- A type that is declared in `orders` too. -/
def otherOrder : Declaration where
  name := "com.acme.Order"
  annotations := [.marker "javax.xml.bind.annotation.XmlRootElement"]

/-- A catalog with annotations on a static method and on a type. -/
def invoices : Catalog :=
  .ofList [invoice [.marker "Deprecated", .marker "serde::skip"], otherOrder]

/-- The same catalog in another order. -/
def invoicesMoved : Catalog :=
  .ofList [otherOrder, invoice [.marker "serde::skip", .marker "Deprecated"]]

theorem rearranged_invoices : invoices.Rearranged invoicesMoved := by
  have hinvoice : (invoice [.marker "Deprecated", .marker "serde::skip"]).Rearranged
      (invoice [.marker "serde::skip", .marker "Deprecated"]) :=
    ⟨.nil, ⟨[], .nil, .nil⟩, ⟨_, .refl _, .cons ⟨.swap _ _ _, rfl⟩ .nil⟩, rfl⟩
  have hother : otherOrder.Rearranged otherOrder :=
    ⟨.refl _, ⟨[], .nil, .nil⟩, ⟨[], .nil, .nil⟩, rfl⟩
  have hlist : invoices.declarations =
      [invoice [.marker "Deprecated", .marker "serde::skip"], otherOrder] := by decide +kernel
  have hmoved : invoicesMoved.declarations =
      [otherOrder, invoice [.marker "serde::skip", .marker "Deprecated"]] := by decide +kernel
  rw [Catalog.Rearranged, hlist, hmoved]
  exact ⟨_, .swap _ _ _, .cons hother (.cons hinvoice .nil)⟩

theorem orders_detect_extend :
    detect invoices = [.jaxb, .serde] ∧
    detect (KeyedList.extend orders invoices) = [.jackson, .serde] ∧
    (Convention.jackson ∈ detect (KeyedList.extend orders invoices)) ∧
    (∀ x ∈ detect (KeyedList.extend orders invoices), x ∈ detect orders ∨ x ∈ detect invoices) ∧
    (∀ x, x ∈ detect (KeyedList.extend orders (.ofList [{ otherOrder with name := "Order" }])) ↔
      x ∈ detect orders ∨ x ∈ detect (.ofList [{ otherOrder with name := "Order" }])) ∧
    detect invoicesMoved = detect invoices ∧
    ([.serde, .jaxb] : List Convention).mergeSort (fun x y => decide (x.rank ≤ y.rank)) =
      detect invoices := by
  obtain ⟨hextend, hrearranged, hmem, -, hsorted⟩ := detect_extend
  obtain ⟨-, hleft, hunion, -⟩ := hextend orders invoices
  obtain ⟨-, -, -, hall⟩ := hextend orders (.ofList [{ otherOrder with name := "Order" }])
  refine ⟨by decide +kernel, by decide +kernel, hleft _ (by decide +kernel), hunion,
    hall (by decide +kernel), hrearranged _ _ rearranged_invoices,
    hsorted invoices _ (by decide) fun x => ?_⟩
  have hdetect : detect invoices = [.jaxb, .serde] := by decide +kernel
  rw [← hmem, hdetect]
  cases x <;> decide

end Convention

end ApiModels
