import ApiModels.Catalog

/-!
# Opacity

Which types stay closed: a terminal type may be the type of a property, but gets no model of its
own.
-/

namespace ApiModels

/-- The rules that close types beyond the built-in and the undeclared ones. -/
structure Opacity where
  /-- Beginnings of platform names, always closed. -/
  reserved : List String := ["javax."]
  /-- The type that every other type extends. -/
  base : String := "java.lang.Object"
  /-- Closed types by qualified name. -/
  types : List String := []
  /-- Beginnings of closed qualified names. -/
  packages : List String := []
deriving DecidableEq, Repr, Inhabited

/-- Why a type stays closed. -/
inductive TerminalReason where
  | primitive
  | reservedName
  | baseObject
  | listedType
  | listedPackage
  | undeclared
deriving DecidableEq, Repr, Inhabited

/-- Whether `name` begins with one of `beginnings`; an empty beginning matches nothing. -/
def startsWithAny (beginnings : List String) (name : String) : Bool :=
  beginnings.any fun b => !b.isEmpty && b.toList.isPrefixOf name.toList

namespace Opacity

/-- The first rule that closes a type. -/
def reason? (policy : Opacity) (catalog : Catalog) (t : TypeRef) : Option TerminalReason :=
  if t.isBuiltin then some .primitive
  else if startsWithAny policy.reserved t.name then some .reservedName
  else if t.name = policy.base then some .baseObject
  else if policy.types.contains t.name then some .listedType
  else if startsWithAny policy.packages t.name then some .listedPackage
  else if (catalog.declaration? t).isNone then some .undeclared
  else none

/-- Whether a type gets no model of its own. -/
def isTerminal (policy : Opacity) (catalog : Catalog) (t : TypeRef) : Bool :=
  (policy.reason? catalog t).isSome

end Opacity

end ApiModels
