import ApiModels.KeyedList
import ApiModels.TypeRef

/-!
# Declarations

What the inputs say about a declared type: its fields, methods, superclass, enum constants and the
annotations on each of these.
-/

namespace ApiModels

/-- An annotation with its attribute values. -/
structure Annotation where
  name : String
  values : OrderedMap String := .empty
deriving DecidableEq, Repr, Inhabited

/-- An annotation without values. -/
def Annotation.marker (name : String) : Annotation := { name }

/-- A data member of a type. -/
structure Field where
  name : String
  isStatic : Bool := false
  type : TypeRef
  doc : String := ""
  annotations : List Annotation := []
deriving DecidableEq, Repr, Inhabited

/-- A method of a type, known by what it returns. -/
structure Method where
  name : String
  isStatic : Bool := false
  returns : TypeRef
  returnDoc : Option String := none
  annotations : List Annotation := []
deriving DecidableEq, Repr, Inhabited

/-- A class, or an enumeration with its constants in order. -/
inductive Kind where
  | plain
  | enumeration (constants : List String)
deriving DecidableEq, Repr, Inhabited

/-- The declaration of one type. -/
structure Declaration where
  name : String
  kind : Kind := .plain
  superclass : Option TypeRef := none
  annotations : List Annotation := []
  fields : List Field := []
  methods : List Method := []
deriving DecidableEq, Repr, Inhabited

/-- Whether some annotation has this name. -/
def carries (annotations : List Annotation) (name : String) : Bool :=
  annotations.any (·.name == name)

/-- The value of the attribute `key` on the first annotation of this name that gives it one. -/
def annotationValue? (annotations : List Annotation) (name key : String) : Option String :=
  (annotations.filter (·.name == name)).findSome? (OrderedMap.get? ·.values key)

namespace Declaration

/-- The enum constants in order; none for a class. -/
def constants (d : Declaration) : List String :=
  match d.kind with
  | .plain => []
  | .enumeration constants => constants

/-- Whether the declaration is an enumeration. -/
def isEnumeration (d : Declaration) : Bool :=
  match d.kind with
  | .plain => false
  | .enumeration _ => true

/-- A reference to the declared type. -/
def typeRef (d : Declaration) : TypeRef := ⟨d.name, []⟩

/-- All annotations of the type, its fields and its methods. -/
def allAnnotations (d : Declaration) : List Annotation :=
  d.annotations ++ d.fields.flatMap (·.annotations) ++ d.methods.flatMap (·.annotations)

end Declaration

end ApiModels
