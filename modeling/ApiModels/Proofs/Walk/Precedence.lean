import ApiModels.Proofs.Walk.Members

/-!
# Precedence of members

A model documents the fields and methods that it can name, in a fixed order: own fields, then those
of the ancestors, then own methods. Of those with one name the first counts
(`Walk.model_precedence`). One that is static, left out, without a name or of a type without a name
is not in that order at all, so it does not stand before another one of its name.
-/

namespace ApiModels

/-- A field or a method, as something that could be documented. -/
inductive MemberSource where
  | field (f : Field)
  | method (g : Method)

namespace MemberSource

def isStatic : MemberSource → Bool
  | .field f => f.isStatic
  | .method g => g.isStatic

def subject : MemberSource → Subject
  | .field f => .field f
  | .method g => .method g

/-- The type that a field is declared with or that a method returns. -/
def type : MemberSource → TypeRef
  | .field f => f.type
  | .method g => g.returns

/-- The documentation of a field, or of what a method returns. -/
def description : MemberSource → String
  | .field f => f.doc
  | .method g => g.returnDoc.getD ""

/-- The member that it is under a name. -/
def member (s : MemberSource) (name : String) : Member := ⟨name, s.type, s.description⟩

end MemberSource

/-- All fields and methods that could be documented for a declaration with these ancestors. -/
def Declaration.memberSources (d : Declaration) (ancestors : List Declaration) :
    List MemberSource :=
  d.fields.map .field ++ (ancestors.flatMap (·.fields)).map .field ++ d.methods.map .method

namespace Walk

/-- The name under which a field or method is kept: it is not static, and the chain names both it
and its type. -/
def offer? (w : Walk) (s : MemberSource) : Option String :=
  if s.isStatic then none
  else do
    let name ← (firstOpinion w.chain s.subject).name?
    let _ ← w.typeName? s.type
    return name

/-- The declaration with those of its fields and methods that are kept under a name. -/
def offering (w : Walk) (d : Declaration) : Declaration :=
  { d with
    fields := d.fields.filter fun f => (w.offer? (.field f)).isSome
    methods := d.methods.filter fun g => (w.offer? (.method g)).isSome }

variable {w : Walk} {d : Declaration} {above : List Declaration} {s : MemberSource} {f : Field}
  {name id : String}

theorem offer?_eq_some_iff : w.offer? s = some name ↔ s.isStatic = false ∧
    firstOpinion w.chain s.subject = .named name ∧ ∃ id, w.typeName? s.type = some id := by
  rw [offer?]
  cases s.isStatic with
  | true => simp
  | false =>
    cases firstOpinion w.chain s.subject <;>
      simp [Opinion.name?, Option.bind_eq_some_iff, and_comm]

theorem member?_eq_map (w : Walk) (opinion : Opinion) (type : TypeRef) (description : String) :
    w.member? opinion type description =
      (do
        let name ← opinion.name?
        let _ ← w.typeName? type
        return name : Option String).map fun name => ⟨name, type, description⟩ := by
  rw [member?]
  cases opinion.name? with
  | none => rfl
  | some name => cases w.typeName? type <;> rfl

theorem fieldMember?_eq (w : Walk) (f : Field) :
    w.fieldMember? f = (w.offer? (.field f)).map (MemberSource.field f).member := by
  change _ = (if f.isStatic then none else _).map _
  rw [fieldMember?]
  cases f.isStatic with
  | true => rfl
  | false => exact w.member?_eq_map _ f.type f.doc

theorem methodMember?_eq (w : Walk) (g : Method) :
    w.methodMember? g = (w.offer? (.method g)).map (MemberSource.method g).member := by
  change _ = (if g.isStatic then none else _).map _
  rw [methodMember?]
  cases g.isStatic with
  | true => rfl
  | false => exact w.member?_eq_map _ g.returns (g.returnDoc.getD "")

/-- The candidates are what the fields and methods offer, in their order. -/
theorem candidates_eq (h : w.catalog.Ancestry [d.name] d above) : w.candidates d =
    (d.memberSources above).filterMap fun s => (w.offer? s).map s.member := by
  have hfields (fields : List Field) : fields.filterMap w.fieldMember? =
      (fields.map .field).filterMap fun s => (w.offer? s).map s.member := by
    rw [List.filterMap_map]
    exact List.filterMap_congr fun f _ => fieldMember?_eq w f
  have hmethods : d.methods.filterMap w.methodMember? =
      (d.methods.map .method).filterMap fun s => (w.offer? s).map s.member := by
    rw [List.filterMap_map]
    exact List.filterMap_congr fun g _ => methodMember?_eq w g
  rw [candidates, Catalog.lineage_eq_cons h, List.flatMap_cons, hfields, hmethods,
    Declaration.memberSources, List.map_append, List.filterMap_append, List.filterMap_append,
    List.filterMap_append]

theorem model_congr {d' : Declaration} (h : w.candidates d' = w.candidates d) :
    w.model id d' = w.model id d := by
  simp only [model, members, h]

theorem keys_properties (h : w.catalog.Ancestry [d.name] d above) :
    (w.model id d).properties.keys =
      ((d.memberSources above).filterMap w.offer?).eraseDups := by
  have hnames : (w.candidates d).map (·.name) = (d.memberSources above).filterMap w.offer? := by
    rw [candidates_eq h, List.map_filterMap]
    apply List.filterMap_congr
    intro s _
    rw [Option.map_map]
    exact Option.map_id'
  rw [model, KeyedList.keys, List.map_map, ← hnames]
  exact KeyedList.keys_ofList

theorem find?_members (h : w.catalog.Ancestry [d.name] d above) (name : String) :
    KeyedList.find? (w.members d) name =
      ((d.memberSources above).find? (w.offer? · == some name)).map (·.member name) := by
  have hoffers (s : MemberSource) :
      ((w.offer? s).map s.member).any (·.name == name) = (w.offer? s == some name) := by
    cases w.offer? s <;> rfl
  rw [members, KeyedList.find?_ofList, candidates_eq h, List.find?_filterMap]
  simp only [hoffers]
  cases hfind : (d.memberSources above).find? (w.offer? · == some name) with
  | none => rfl
  | some s =>
    have hs : w.offer? s = some name := by simpa using List.find?_some hfind
    rw [Option.bind_some, hs, Option.map_some, Option.map_some]

/-- A property is that of the first field or method that offers its name. -/
theorem get?_properties (h : w.catalog.Ancestry [d.name] d above) (name : String) :
    (w.model id d).properties.get? name =
      ((d.memberSources above).find? (w.offer? · == some name)).map
        fun s => w.property (s.member name) := by
  have hproperty : (w.model id d).properties.get? name =
      (KeyedList.find? (w.members d) name).map w.property := by
    rw [OrderedMap.get?, KeyedList.find?, model, List.find?_map, Option.map_map]
    rfl
  rw [hproperty, find?_members h, Option.map_map]
  rfl

/-! ## What stands first -/

theorem find?_memberSources_of_field {fields : List Field} {rest : List MemberSource}
    (hf : f ∈ fields) (hname : w.offer? (.field f) = some name) :
    ∃ g ∈ fields, (fields.map MemberSource.field ++ rest).find? (w.offer? · == some name) =
      some (.field g) := by
  have hsome : ((fields.map MemberSource.field).find? (w.offer? · == some name)).isSome = true := by
    rw [List.find?_isSome]
    exact ⟨.field f, List.mem_map_of_mem hf, by simpa using hname⟩
  obtain ⟨s, hs⟩ := Option.isSome_iff_exists.1 hsome
  obtain ⟨g, hg, rfl⟩ := List.mem_map.1 (List.mem_of_find?_eq_some hs)
  exact ⟨g, hg, by rw [List.find?_append, hs, Option.some_or]⟩

/-- Nothing is lost with fields and methods that offer no name. -/
theorem candidates_offering (w : Walk) (d : Declaration) :
    w.candidates (w.offering d) = w.candidates d := by
  have hoffers {α : Type} (source : α → MemberSource) (as : List α) :
      (as.filter fun a => (w.offer? (source a)).isSome).filterMap
        (fun a => (w.offer? (source a)).map (source a).member) =
      as.filterMap fun a => (w.offer? (source a)).map (source a).member := by
    rw [List.filterMap_filter]
    apply List.filterMap_congr
    intro a _
    cases w.offer? (source a) <;> rfl
  obtain ⟨above, -, h⟩ := w.catalog.exists_ancestry d
  have h' : w.catalog.Ancestry [(w.offering d).name] (w.offering d) above := h.of_superclass_eq rfl
  rw [candidates_eq h, candidates_eq h']
  simp only [offering, Declaration.memberSources, List.filterMap_append, List.filterMap_map,
    Function.comp_def, hoffers]

/-- The model of a declaration has a property for each name that its own fields, the fields of its
ancestors and its own methods offer, in the order in which the names first come up in this sequence;
the property is made from the type and the documentation of the first one that offers the name. So
own fields come before those of ancestors, and fields before methods, while a field or method that
offers no name makes no difference. -/
theorem model_precedence (w : Walk) (d : Declaration) (id : String) :
    ∃ ancestors, w.catalog.Ancestry [d.name] d ancestors ∧
      (w.model id d).properties.keys =
        ((d.memberSources ancestors).filterMap w.offer?).eraseDups ∧
      (∀ name, (w.model id d).properties.get? name =
        ((d.memberSources ancestors).find? (w.offer? · == some name)).map
          fun s => w.property ⟨name, s.type, s.description⟩) ∧
      (∀ f ∈ d.fields, ∀ name, w.offer? (.field f) = some name → ∃ g ∈ d.fields,
        (w.model id d).properties.get? name = some (w.property ⟨name, g.type, g.doc⟩)) ∧
      (∀ a ∈ ancestors, ∀ f ∈ a.fields, ∀ name, w.offer? (.field f) = some name →
        ∃ b ∈ d :: ancestors, ∃ g ∈ b.fields,
          (w.model id d).properties.get? name = some (w.property ⟨name, g.type, g.doc⟩)) ∧
      w.model id (w.offering d) = w.model id d := by
  obtain ⟨ancestors, -, h⟩ := w.catalog.exists_ancestry d
  have hget (name : String) : (w.model id d).properties.get? name = _ := get?_properties h name
  refine ⟨ancestors, h, keys_properties h, hget, ?_, ?_, model_congr (candidates_offering w d)⟩
  · intro f hf name hname
    obtain ⟨g, hg, hfind⟩ := find?_memberSources_of_field hf hname
    refine ⟨g, hg, ?_⟩
    rw [hget, Declaration.memberSources, List.append_assoc, hfind]
    rfl
  · intro a ha f hf name hname
    have hmem : f ∈ d.fields ++ ancestors.flatMap (·.fields) :=
      List.mem_append_right _ (List.mem_flatMap.2 ⟨a, ha, hf⟩)
    obtain ⟨g, hg, hfind⟩ := find?_memberSources_of_field hmem hname
    have hb : ∃ b ∈ d :: ancestors, g ∈ b.fields := by
      rwa [← List.mem_flatMap, List.flatMap_cons]
    obtain ⟨b, hb, hg⟩ := hb
    refine ⟨b, hb, g, hg, ?_⟩
    rw [hget, Declaration.memberSources, ← List.map_append, hfind]
    rfl

/-- A static field and a field of a type without a name do not stand before the methods that have
their names. -/
example :
    ((Walk.mk .empty {} [.declared]).model "Cart" {
      name := "Cart"
      fields := [
        { name := "size", isStatic := true, type := { name := "int" } },
        { name := "total", type := { name := "shop." } },
        { name := "owner", type := { name := "String" }, doc := "Who pays." }]
      methods := [
        { name := "getTotal", returns := { name := "double" } },
        { name := "size", returns := { name := "long" }, returnDoc := some "The lines." },
        { name := "getOwner", returns := { name := "int" } }] }).properties.toList =
    [("owner", .typed "String" "Who pays." none), ("total", .typed "double" "" none),
      ("size", .typed "long" "The lines." none)] := by
  decide +kernel

end Walk

end ApiModels
