import ApiModels.Declaration
import ApiModels.Text.Letter

/-!
# Naming

What a type, field or method is called in a document. A translator either names its subject, asks
to leave it out, or has no opinion; in a chain the first opinion counts.
-/

namespace ApiModels

/-- What a translator says about a subject. -/
inductive Opinion where
  /-- The subject has this name. -/
  | named (text : String)
  /-- The subject is left out. -/
  | ignored
  /-- No opinion. -/
  | missing
deriving DecidableEq, Repr, Inhabited

namespace Opinion

/-- A name unless the text is empty. -/
def ofText (text : String) : Opinion := if text.isEmpty then .missing else .named text

/-- The name, if the opinion is one. -/
def name? : Opinion → Option String
  | .named text => some text
  | _ => none

/-- The first opinion, or else the second. -/
def orElse : Opinion → Opinion → Opinion
  | .missing, second => second
  | first, _ => first

end Opinion

/-- What a translator is asked about. -/
inductive Subject where
  /-- A type with its declaration, if it has one. -/
  | type (t : TypeRef) (declaration : Option Declaration)
  | field (f : Field)
  | method (m : Method)
deriving Repr

/-- An attribute of an annotation that holds a name. -/
structure NameSource where
  /-- The name of the annotation. -/
  owner : String
  key : String
deriving DecidableEq, Repr, Inhabited

/-- Annotations that decide about names: those that leave a subject out, those that name a member,
and those that name a type. -/
structure AnnotationTable where
  ignore : List String := []
  element : List NameSource := []
  root : List NameSource := []
deriving DecidableEq, Repr, Inhabited

namespace AnnotationTable

/-- The value that asks for the default name. -/
def defaultMark : String := "##default"

/-- A value that can be used as a name. -/
def isUsable (value : String) : Bool := !value.isEmpty && value != defaultMark

/-- The opinion that annotations give: a mark to leave out counts before every name, and of the name
sources the first with a usable value is taken. -/
def judge (table : AnnotationTable) (sources : List NameSource) (annotations : List Annotation) :
    Opinion :=
  if table.ignore.any (carries annotations) then .ignored
  else match (sources.filterMap fun s => annotationValue? annotations s.owner s.key).find?
      isUsable with
    | some value => .named value
    | none => .missing

/-- The table's opinion. A type without a declaration has no annotations to judge by. -/
def opinion (table : AnnotationTable) : Subject → Opinion
  | .type _ none => .missing
  | .type _ (some d) => table.judge table.root d.annotations
  | .field f => table.judge table.element f.annotations
  | .method m => table.judge table.element m.annotations

end AnnotationTable

/-- The word that comes after `mark` in the name of an accessor, with a small first letter; the word
has to start with a capital. -/
def accessorWord? (mark name : List Char) : Option (List Char) :=
  if mark.isPrefixOf name then
    match name.drop mark.length with
    | [] => none
    | c :: rest => if Text.isUpper c then some (Text.lower c ++ rest) else none
  else none

/-- The property that a method stands for: `getTotal` is `total`, `isActive` is `active`, and any
other name is kept. -/
def propertyName (name : String) : String :=
  let cs := name.toList
  match accessorWord? ['g', 'e', 't'] cs with
  | some word => String.ofList word
  | none =>
    match accessorWord? ['i', 's'] cs with
    | some word => String.ofList word
    | none => name

/-- The opinion that goes by the declared name alone. -/
def Subject.declaredName : Subject → Opinion
  | .type t _ => .ofText t.simpleName
  | .field f => .ofText f.name
  | .method m => .ofText (propertyName m.name)

/-- A naming strategy. -/
inductive Translator where
  /-- Goes by the declared name. -/
  | declared
  /-- Goes by annotations. -/
  | table (table : AnnotationTable)
  /-- Asks several translators in turn. -/
  | chain (links : List Translator)
deriving Repr, Inhabited

mutual
/-- What the translator says about a subject. -/
def Translator.opinion : Translator → Subject → Opinion
  | .declared, s => s.declaredName
  | .table table, s => table.opinion s
  | .chain links, s => firstOpinion links s

/-- The first opinion among several translators. -/
def firstOpinion : List Translator → Subject → Opinion
  | [], _ => .missing
  | link :: links, s => (link.opinion s).orElse (firstOpinion links s)
end

end ApiModels
