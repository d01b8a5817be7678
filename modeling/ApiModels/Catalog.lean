import ApiModels.Declaration

/-!
# Catalogs

The declarations known to a run, in the order in which they were offered; the first declaration of
a name is kept.
-/

namespace ApiModels

/-- Declarations by qualified name, the first of each name. -/
abbrev Catalog := KeyedList Declaration Declaration.name

namespace Catalog

/-- The declarations in order. -/
abbrev declarations (c : Catalog) : List Declaration := c.toList

/-- The declaration that a reference names. -/
def declaration? (c : Catalog) (t : TypeRef) : Option Declaration := KeyedList.find? c t.name

/-- The only member of a list. -/
def onlyMember? : List Declaration → Option Declaration
  | [d] => some d
  | _ => none

/-- The declaration of this qualified name, or else the only one with this simple name. -/
def lookup? (c : Catalog) (name : String) : Option Declaration :=
  match KeyedList.find? c name with
  | some d => some d
  | none => onlyMember? (c.toList.filter (TypeRef.simpleNameOf ·.name == name))

/-- The declaration and its ancestors, nearest first, until a link leaves the catalog or comes back
to a name in `seen`. -/
def lineageFrom (c : Catalog) : Nat → List String → Declaration → List Declaration
  | 0, _, _ => []
  | fuel + 1, seen, d =>
    if seen.contains d.name then []
    else d :: match d.superclass.bind c.declaration? with
      | none => []
      | some parent => lineageFrom c fuel (d.name :: seen) parent

/-- The declaration and its ancestors, nearest first. Every step but the last meets a new name, so
one step per declaration and one for `d` itself are enough. -/
def lineage (c : Catalog) (d : Declaration) : List Declaration :=
  c.lineageFrom (KeyedList.size c + 1) [] d

end Catalog

end ApiModels
