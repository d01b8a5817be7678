import ApiModels.Naming.Convention
import ApiModels.Proofs.Naming.Names
import ApiModels.Proofs.Walk.Precedence

/-!
# What properties say

The type of a documented member has a name, so the property of the member never falls back on the
simple name of the type: it holds the constants of the type if the catalog declares an enumeration,
and the names of the type and of its first argument otherwise (`Walk.models_classified`). None of
the names in a model is empty.
-/

namespace ApiModels.Walk

/-- Whether the catalog declares the type as an enumeration. -/
def IsEnumeration (w : Walk) (t : TypeRef) : Prop :=
  ∃ d, w.catalog.declaration? t = some d ∧ d.isEnumeration = true

/-- The property says of a type what a walk knows: the constants of an enumeration, or else the
chain's names for the type and for its first argument. -/
structure Describes (w : Walk) (t : TypeRef) (description : String) (p : Property) : Prop where
  enumeration_iff : (∃ values text, p = .enumeration values text) ↔ w.IsEnumeration t
  constants : ∀ d, w.catalog.declaration? t = some d → d.isEnumeration = true →
    p = .enumeration d.constants description
  typed : ¬w.IsEnumeration t → ∃ name, w.typeName? t = some name ∧
    p = .typed name description (t.element?.bind w.typeName?)

variable {w : Walk} {t : TypeRef} {d : Declaration} {above : List Declaration} {m : Member}
  {p : Property} {id name description : String} {element : Option String}

theorem ne_empty_of_typeName? (h : w.typeName? t = some name) : name ≠ "" := by
  rw [typeName?] at h
  cases hopinion : firstOpinion w.chain (.type t (w.catalog.declaration? t)) with
  | named text =>
    rw [hopinion] at h
    cases h
    exact ne_empty_of_firstOpinion _ hopinion
  | _ =>
    rw [hopinion] at h
    cases h

theorem property_of_isEnumeration (hd : w.catalog.declaration? m.type = some d)
    (h : d.isEnumeration = true) : w.property m = .enumeration d.constants m.description := by
  obtain ⟨_, kind, _, _, _, _⟩ := d
  cases kind with
  | plain => cases h
  | enumeration constants => simp [property, hd, Declaration.constants]

theorem property_of_not_isEnumeration (h : ¬w.IsEnumeration m.type) :
    w.property m = .typed ((w.typeName? m.type).getD m.type.simpleName) m.description
      (m.type.element?.bind w.typeName?) := by
  rw [property]
  cases hd : w.catalog.declaration? m.type with
  | none => rfl
  | some d =>
    obtain ⟨_, kind, _, _, _, _⟩ := d
    cases kind with
    | plain => rfl
    | enumeration _ => exact absurd ⟨_, hd, rfl⟩ h

/-- The property of a member describes the type of the member, if that has a name. -/
theorem describes_property (h : w.typeName? m.type = some name) :
    w.Describes m.type m.description (w.property m) where
  enumeration_iff := by
    constructor
    · rintro ⟨values, text, hp⟩
      by_contra hnone
      rw [property_of_not_isEnumeration hnone] at hp
      cases hp
    · rintro ⟨d, hd, henum⟩
      exact ⟨_, _, property_of_isEnumeration hd henum⟩
  constants d hd henum := property_of_isEnumeration hd henum
  typed hnone := by
    refine ⟨name, h, ?_⟩
    rw [property_of_not_isEnumeration hnone, h, Option.getD_some]

theorem Describes.ne_empty (h : w.Describes t description p) {text : String}
    (hp : p = .typed name text element) : name ≠ "" ∧ element ≠ some "" := by
  have hnone : ¬w.IsEnumeration t := by
    intro henum
    obtain ⟨values, text', hp'⟩ := h.enumeration_iff.2 henum
    cases hp.symm.trans hp'
  obtain ⟨name', hname, hp'⟩ := h.typed hnone
  cases hp.symm.trans hp'
  refine ⟨ne_empty_of_typeName? hname, fun hempty => ?_⟩
  obtain ⟨u, -, hu⟩ := Option.bind_eq_some_iff.1 hempty
  exact ne_empty_of_typeName? hu rfl

/-- A property of a model describes the type of the first field or method that offers its name. -/
theorem exists_describes (h : w.catalog.Ancestry [d.name] d above)
    (hp : (name, p) ∈ (w.model id d).properties.toList) :
    ∃ s, (d.memberSources above).find? (w.offer? · == some name) = some s ∧ name ≠ "" ∧
      w.Describes s.type s.description p := by
  have hget : (w.model id d).properties.get? name = some p := OrderedMap.get?_eq_some_iff.2 hp
  rw [get?_properties h] at hget
  obtain ⟨s, hfind, rfl⟩ := Option.map_eq_some_iff.1 hget
  have hoffer : w.offer? s = some name := by simpa using List.find?_some hfind
  obtain ⟨-, hname, typeName, htype⟩ := offer?_eq_some_iff.1 hoffer
  exact ⟨s, hfind, ne_empty_of_firstOpinion _ hname,
    describes_property (m := s.member name) htype⟩

/-- Every model of a walk is that of a declaration and has the chain's name for it as its id. Each
property describes the type of the field or method that it stems from, and neither the id nor the
name of a property nor a name in it is empty. -/
theorem models_classified (w : Walk) (root : TypeRef) (m : Model)
    (hm : m ∈ (w.models root).toList) :
    m.id ≠ "" ∧ ∃ d ∈ w.catalog.declarations, w.typeName? d.typeRef = some m.id ∧
      m = w.model m.id d ∧ ∃ ancestors, w.catalog.Ancestry [d.name] d ancestors ∧
        ∀ name p, (name, p) ∈ m.properties.toList →
          name ≠ "" ∧
          (∃ s, (d.memberSources ancestors).find? (w.offer? · == some name) = some s ∧
            w.Describes s.type s.description p) ∧
          ∀ typeName description element, p = .typed typeName description element →
            typeName ≠ "" ∧ element ≠ some "" := by
  obtain ⟨log, hlog, -, hlist⟩ := exists_log w root
  rw [hlist] at hm
  obtain ⟨e, he, rfl⟩ := List.mem_map.1 hm
  obtain ⟨-, hd, hid⟩ := expansion?_eq_some_iff.1 (hlog.expansion?_of_mem he)
  obtain ⟨ancestors, -, h⟩ := w.catalog.exists_ancestry e.declaration
  refine ⟨ne_empty_of_typeName? hid, e.declaration, (Catalog.declaration?_eq_some_iff.1 hd).1, hid,
    rfl, ancestors, h, ?_⟩
  intro name p hp
  obtain ⟨s, hfind, hname, hs⟩ := exists_describes h hp
  exact ⟨hname, ⟨s, hfind, hs⟩, fun typeName description element hp => hs.ne_empty hp⟩

/-- A walk over a parcel with a state and stops, named by a chain within a chain. -/
def parcel : Walk where
  catalog := .ofList [
    { name := "post.Parcel"
      superclass := some { name := "post.Item" }
      fields := [{ name := "state", type := { name := "post.State" } }] },
    { name := "post.Item"
      fields := [{ name := "stops", type := ⟨"java.util.List", [{ name := "post.Stop" }]⟩ }] },
    { name := "post.State", kind := .enumeration ["SENT", "LOST"] }]
  policy := {}
  chain := [.chain [.table Convention.jackson.table, .declared]]

theorem parcel_models_classified : ∃ m ∈ (parcel.models { name := "post.Parcel" }).toList,
    m.properties.toList = [("state", .enumeration ["SENT", "LOST"] ""),
      ("stops", .typed "List" "" (some "Stop"))] ∧
    m.id ≠ "" ∧ ∃ d ∈ parcel.catalog.declarations, parcel.typeName? d.typeRef = some m.id ∧
      ∃ ancestors, parcel.catalog.Ancestry [d.name] d ancestors ∧
        ∃ s ∈ d.memberSources ancestors, parcel.offer? s = some "stops" ∧
          parcel.Describes s.type s.description (.typed "List" "" (some "Stop")) := by
  obtain ⟨m, hm, hproperties⟩ : ∃ m ∈ (parcel.models { name := "post.Parcel" }).toList,
      m.properties.toList = [("state", .enumeration ["SENT", "LOST"] ""),
        ("stops", .typed "List" "" (some "Stop"))] := by
    decide +kernel
  obtain ⟨hid, d, hd, hname, -, ancestors, hancestry, h⟩ := models_classified parcel _ m hm
  obtain ⟨-, ⟨s, hfind, hs⟩, -⟩ := h "stops" (.typed "List" "" (some "Stop")) (by simp [hproperties])
  refine ⟨m, hm, hproperties, hid, d, hd, hname, ancestors, hancestry, s,
    List.mem_of_find?_eq_some hfind, ?_, hs⟩
  simpa using List.find?_some hfind

end ApiModels.Walk
