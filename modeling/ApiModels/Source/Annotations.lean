import ApiModels.Declaration
import ApiModels.Source.Documentation

/-!
# Attributes as annotations

An attribute is an annotation whose values are the literals in its list. A flag in the list is an
annotation of its own, named behind the attribute.
-/

namespace ApiModels.Source

/-- The value that an entry gives to its key. -/
def Entry.value? (e : Entry) : Option (String × String) :=
  match e.form with
  | .value literal => (literal.bind Literal.text?).map (pathText e.path, ·)
  | _ => none

/-- The annotation that a flag in the list of the attribute `name` stands for. -/
def Entry.flag? (name : String) (e : Entry) : Option Annotation :=
  match e.form with
  | .flag => some (.marker (name ++ "::" ++ pathText e.path))
  | _ => none

/-- The annotations that an attribute stands for; documentation is none. -/
def Attribute.annotations (a : Attribute) : List Annotation :=
  let name := pathText a.path
  if a.isDoc then []
  else match a.form with
    | .flag => [.marker name]
    | .value literal =>
      [{ name, values := .ofListLast ((literal.bind Literal.text?).toList.map ("value", ·)) }]
    | .list entries =>
      { name, values := .ofListLast (entries.filterMap Entry.value?) } ::
        entries.filterMap (Entry.flag? name)

/-- The annotations that attributes stand for. -/
def annotations (attributes : List Attribute) : List Annotation :=
  attributes.flatMap Attribute.annotations

end ApiModels.Source
