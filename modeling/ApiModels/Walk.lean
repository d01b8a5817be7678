import ApiModels.Model
import ApiModels.Naming
import ApiModels.Opacity

/-!
# The walk

From a root, every type that is declared, not terminal, named and has at least one documented member
gets a model; the types of its members, and their element types, are visited in turn. A type whose
name is taken is not visited again, so the walk ends on every graph of types.
-/

namespace ApiModels

/-- What a walk goes by. -/
structure Walk where
  catalog : Catalog
  policy : Opacity
  chain : List Translator

/-- A member that a model documents: its name, type and description. -/
structure Member where
  name : String
  type : TypeRef
  description : String
deriving DecidableEq, Repr, Inhabited

/-- The types that a member leads to: its own and its element type. -/
def Member.types (m : Member) : List TypeRef := m.type :: m.type.element?.toList

namespace Walk

/-- The chain's name for a type. -/
def typeName? (w : Walk) (t : TypeRef) : Option String :=
  (firstOpinion w.chain (.type t (w.catalog.declaration? t))).name?

/-- A member with this name and a type that has a name. -/
def member? (w : Walk) (opinion : Opinion) (type : TypeRef) (description : String) :
    Option Member := do
  let name ← opinion.name?
  let _ ← w.typeName? type
  return ⟨name, type, description⟩

/-- The member that a field stands for, if it is one. -/
def fieldMember? (w : Walk) (f : Field) : Option Member :=
  if f.isStatic then none else w.member? (firstOpinion w.chain (.field f)) f.type f.doc

/-- The member that a method stands for, if it is one. -/
def methodMember? (w : Walk) (m : Method) : Option Member :=
  if m.isStatic then none
  else w.member? (firstOpinion w.chain (.method m)) m.returns (m.returnDoc.getD "")

/-- All members that could be documented: own fields, fields of the ancestors, own methods. -/
def candidates (w : Walk) (d : Declaration) : List Member :=
  ((w.catalog.lineage d).flatMap (·.fields)).filterMap w.fieldMember? ++
    d.methods.filterMap w.methodMember?

/-- The documented members: of candidates with one name the first. -/
def members (w : Walk) (d : Declaration) : KeyedList Member Member.name :=
  .ofList (w.candidates d)

/-- The property that documents a member. -/
def property (w : Walk) (m : Member) : Property :=
  let typed := .typed ((w.typeName? m.type).getD m.type.simpleName) m.description
    (m.type.element?.bind w.typeName?)
  match w.catalog.declaration? m.type with
  | none => typed
  | some d =>
    match d.kind with
    | .plain => typed
    | .enumeration constants => .enumeration constants m.description

/-- The model of a declaration under the name `id`. -/
def model (w : Walk) (id : String) (d : Declaration) : Model where
  id := id
  properties :=
    { toList := (w.members d).toList.map fun m => (m.name, w.property m)
      nodup := by
        have h := (w.members d).nodup
        simp only [List.map_map]
        exact h }

/-- The declaration and the name of a type that is neither terminal nor nameless. -/
def subject? (w : Walk) (t : TypeRef) : Option (Declaration × String) :=
  if w.policy.isTerminal w.catalog t then none
  else do
    let d ← w.catalog.declaration? t
    let id ← w.typeName? t
    return (d, id)

/-- The types that a declaration leads to, in the order in which they are visited. -/
def next (w : Walk) (d : Declaration) : List TypeRef := (w.members d).toList.flatMap Member.types

/-- Adds the model of `t` and then those of all types below it; `none` if `depth` does not suffice. -/
def visit? (w : Walk) : Nat → TypeRef → ModelSet → Option ModelSet
  | 0, _, _ => none
  | depth + 1, t, models =>
    match w.subject? t with
    | none => some models
    | some (d, id) =>
      if models.contains id || (w.members d).isEmpty then some models
      else (w.next d).foldlM (fun found u => visit? w depth u found) (models.insert (w.model id d))

/-- Adds the models reachable from `t`. A visit goes deeper only after it has used up the name of a
declaration, so one level per declaration and one more suffice. -/
def visit (w : Walk) (t : TypeRef) (models : ModelSet) : ModelSet :=
  (w.visit? (KeyedList.size w.catalog + 1) t models).getD models

/-- The models reachable from a root, in the order in which they are found. -/
def models (w : Walk) (root : TypeRef) : ModelSet := w.visit root .empty

/-- The models of each root on its own, merged in order. -/
def mergedModels (w : Walk) (roots : List TypeRef) : ModelSet :=
  roots.foldl (fun found root => ModelSet.merge found (w.models root)) .empty

/-- The roots of a run that names none: all declarations but the enumerations. -/
def defaultRoots (catalog : Catalog) : List TypeRef :=
  (catalog.declarations.filter (!·.isEnumeration)).map (·.typeRef)

end Walk

end ApiModels
