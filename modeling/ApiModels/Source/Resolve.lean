import ApiModels.Catalog
import ApiModels.Source.Annotations

/-!
# Declarations in source files

A structure declares a class with its named fields, an enumeration its variants. Public functions in
implementations of a declared type that take nothing but a reference to its value are its methods.
Files are passed over for the declarations first and then for the methods.
-/

namespace ApiModels.Source

/-! ## Types -/

/-- The names known while types are resolved. -/
structure Scope where
  /-- The names of the declared types. -/
  declared : List String
  /-- The name of the type that is being declared. -/
  self : String

/-- The name of a path: that of its last segment if it names the type itself or a declared type, or
else all its names. -/
def Scope.pathName (scope : Scope) (segments : List Segment) : String :=
  let last := (segments.getLast?.map (·.name.text)).getD ""
  if last == "Self" then scope.self
  else if scope.declared.contains last then last
  else pathText (segments.map Segment.name)

mutual
/-- The reference that a written type stands for. References and parentheses leave no trace. -/
def Scope.typeRef (scope : Scope) : Ty → TypeRef
  | .path .qualified _ => .unknown
  | .path _ [] => .unknown
  | .path _ (s :: rest) => ⟨scope.pathName (s :: rest), scope.lastArguments (s :: rest)⟩
  | .reference _ _ target => scope.typeRef target
  | .parenthesized inner => scope.typeRef inner
  | .slice element => .array (scope.typeRef element)
  | .array element => .array (scope.typeRef element)
  | .tuple [] => ⟨"()", []⟩
  | .tuple (_ :: _) => ⟨"tuple", []⟩
  | .bound => .unknown
  | .other => .unknown

/-- The types among the arguments of the last segment. -/
def Scope.lastArguments (scope : Scope) : List Segment → List TypeRef
  | [] => []
  | [⟨_, arguments⟩] => scope.typeArguments arguments
  | _ :: s :: rest => scope.lastArguments (s :: rest)

/-- The types among arguments. -/
def Scope.typeArguments (scope : Scope) : List Argument → List TypeRef
  | [] => []
  | .type t :: rest => scope.typeRef t :: scope.typeArguments rest
  | .lifetime _ :: rest => scope.typeArguments rest
  | .constant :: rest => scope.typeArguments rest
  | .associated :: rest => scope.typeArguments rest
end

/-! ## Structures and enumerations -/

/-- Whether a field stands for all fields of its type. -/
def isFlattened (f : Field) : Bool := carries f.annotations "serde::flatten"

/-- A field of a structure. -/
def Scope.field (scope : Scope) (f : NamedField) : Field where
  name := f.name.text
  type := scope.typeRef f.type
  doc := docText f.attributes
  annotations := Source.annotations f.attributes

/-- The declaration of a structure. The first flattened field is no field but names the
superclass. -/
def Scope.ofStructure (scope : Scope) (s : Structure) : Declaration :=
  let fields := s.fields.map scope.field
  { name := scope.self
    superclass := (fields.find? isFlattened).map Field.type
    annotations := annotations s.attributes
    fields := fields.eraseP isFlattened }

/-- The constant of a variant: what it is renamed to, or else its name. -/
def Variant.constant (v : Variant) : String :=
  (annotationValue? (annotations v.attributes) "serde" "rename").getD v.name.text

/-- The declaration of an enumeration. -/
def ofEnumeration (e : Enumeration) : Declaration where
  name := e.name.text
  kind := .enumeration (e.variants.map Variant.constant)
  annotations := annotations e.attributes

/-! ## Methods -/

/-- The method that a function declares: a public function without generic parameters and
arguments that returns something. -/
def Scope.method? (scope : Scope) (f : Function) : Option Method :=
  let s := f.signature
  if !f.isPublic || s.isGeneric || s.arguments ≠ 0 then none
  else s.returns.map fun returns => {
    name := s.name.text
    isStatic := s.receiver.isNone
    returns := scope.typeRef returns
    returnDoc := returnDoc? (docLines f.attributes)
    annotations := annotations f.attributes }

/-- Adds the method that a function declares. -/
def Scope.addMethod (scope : Scope) (d : Declaration) (f : Function) : Declaration :=
  match scope.method? f with
  | some m => { d with methods := d.methods ++ [m] }
  | none => d

/-- The name of the type that an implementation is of itself: the last name of a path. An
implementation of a trait, or of a type that is no path, has none. -/
def Implementation.ownName? (i : Implementation) : Option String :=
  if i.hasTrait then none
  else match i.target with
    | .path _ segments => segments.getLast?.map (·.name.text)
    | _ => none

/-! ## Files -/

/-- The name of the type that an item declares. -/
def Item.declared? : Item → Option String
  | .structure s => some s.name.text
  | .enumeration e => some e.name.text
  | _ => none

/-- The declaration of an item, without methods. -/
def Item.declaration? (declared : List String) : Item → Option Declaration
  | .structure s => some ((Scope.mk declared s.name.text).ofStructure s)
  | .enumeration e => some (ofEnumeration e)
  | _ => none

/-- Adds the declaration of an item unless its name is taken. -/
def declare (declared : List String) (ds : OrderedMap Declaration) (item : Item) :
    OrderedMap Declaration :=
  match item.declaration? declared with
  | some d => KeyedList.insert ds (d.name, d)
  | none => ds

/-- Adds the methods of an implementation to the declaration of its name. One of a type that is not
declared is passed over. -/
def implement (declared : List String) (ds : OrderedMap Declaration) : Item → OrderedMap Declaration
  | .implementation i =>
    match i.ownName? with
    | none => ds
    | some name =>
      match ds.get? name with
      | none => ds
      | some d => KeyedList.set ds (name, i.functions.foldl (Scope.addMethod ⟨declared, name⟩) d)
  | _ => ds

/-- The names of the types that files declare. -/
def declaredNames (files : List (List Item)) : List String :=
  files.flatMap fun items => items.filterMap Item.declared?

/-- The declarations of files, without methods. -/
def declareAll (declared : List String) (files : List (List Item)) : OrderedMap Declaration :=
  files.foldl (fun ds items => items.foldl (declare declared) ds) .empty

/-- Adds the methods of all implementations in files. -/
def implementAll (declared : List String) (ds : OrderedMap Declaration) (files : List (List Item)) :
    OrderedMap Declaration :=
  files.foldl (fun ds items => items.foldl (implement declared) ds) ds

/-- What source files declare at their outer level. All names are known before the first type is
resolved, and all declarations before the first implementation is met, so methods may stand in any
file. Of two declarations of one name the first counts. -/
def resolve (files : List (List Item)) : Catalog :=
  let declared := declaredNames files
  let ds := implementAll declared (declareAll declared files) files
  .ofList (ds.toList.map Prod.snd)

end ApiModels.Source
