import ApiModels.KeyedList

/-!
# Models

The documented form of a type: an id and the properties of its members. A model set keeps the first
model of each id.
-/

namespace ApiModels

/-- A documented member. -/
inductive Property where
  /-- The member's type is an enumeration. -/
  | enumeration (values : List String) (description : String)
  /-- The member has a named type, and an element type if it is a container. -/
  | typed (typeName description : String) (element : Option String)
deriving DecidableEq, Repr, Inhabited

/-- The documented properties of one type, in order. -/
structure Model where
  id : String
  properties : OrderedMap Property := .empty
deriving DecidableEq, Repr, Inhabited

/-- Whether two models have the same id and the same properties in any order. -/
def Model.same (a b : Model) : Bool :=
  a.id == b.id && KeyedList.equalUpToOrder (fun p q => p == q) a.properties b.properties

/-- Models by id, the first of each id. -/
abbrev ModelSet := KeyedList Model Model.id

namespace ModelSet

/-- The ids in order. -/
abbrev ids (models : ModelSet) : List String := KeyedList.keys models

/-- Whether two sets hold the same models, the order of models and properties aside. -/
def same (a b : ModelSet) : Bool := KeyedList.equalUpToOrder Model.same a b

/-- Adds the models of `other` whose ids are free. -/
abbrev merge (models other : ModelSet) : ModelSet := KeyedList.extend models other

end ModelSet

end ApiModels
