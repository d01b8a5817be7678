import ApiModels.Source.Literal

/-!
# Items of source files

What a source file declares, as far as declarations of types come from it: structures, enumerations,
implementations and modules, with their attributes and the types that they name. Everything else is
read and left out.
-/

namespace ApiModels.Source

/-- A name as it is written. -/
structure Identifier where
  text : String
  /-- Whether the name has the mark that keeps it from being a keyword. -/
  isRaw : Bool := false
deriving DecidableEq, Repr, Inhabited

/-! ## Types -/

/-- Where a path begins. -/
inductive PathRoot where
  | relative
  /-- With a pair of colons. -/
  | absolute
  /-- With a type in angle brackets. -/
  | qualified
deriving DecidableEq, Repr, Inhabited

mutual
/-- A written type. -/
inductive Ty where
  | path (root : PathRoot) (segments : List Segment)
  | reference (lifetime : Option String) (isMutable : Bool) (target : Ty)
  | parenthesized (inner : Ty)
  | slice (element : Ty)
  | array (element : Ty)
  | tuple (elements : List Ty)
  /-- A single bound that does not show by its form that it is no other type. -/
  | bound
  /-- Any other type: functions, pointers, trait objects and the like. -/
  | other

/-- A name in a path with its arguments in angle brackets. -/
inductive Segment where
  | mk (name : Identifier) (arguments : List Argument)

/-- An argument in angle brackets. -/
inductive Argument where
  | type (t : Ty)
  | lifetime (name : String)
  | constant
  /-- What is said of an associated item. -/
  | associated
end

deriving instance Repr for Ty, Segment, Argument

instance : Inhabited Ty := ⟨.other⟩
instance : Inhabited Segment := ⟨⟨default, []⟩⟩

/-- The name of a segment. -/
def Segment.name : Segment → Identifier
  | ⟨name, _⟩ => name

/-- The arguments of a segment. -/
def Segment.arguments : Segment → List Argument
  | ⟨_, arguments⟩ => arguments

/-! ## Attributes -/

/-- What follows the path of an entry in an attribute's list. -/
inductive EntryForm where
  | flag
  /-- A value; anything but a literal is no value that can be used. -/
  | value (literal : Option Literal)
  | nested
deriving DecidableEq, Repr, Inhabited

/-- An entry in an attribute's list. -/
structure Entry where
  path : List Identifier
  form : EntryForm
deriving DecidableEq, Repr, Inhabited

/-- What follows the path of an attribute. -/
inductive AttributeForm where
  | flag
  | value (literal : Option Literal)
  /-- The entries of a list, up to the first thing that is none. -/
  | list (entries : List Entry)
deriving DecidableEq, Repr, Inhabited

/-- An attribute. -/
structure Attribute where
  path : List Identifier
  /-- Whether the path begins with a pair of colons. -/
  isAbsolute : Bool := false
  form : AttributeForm
deriving DecidableEq, Repr, Inhabited

/-! ## Items -/

/-- A field with a name. -/
structure NamedField where
  attributes : List Attribute
  name : Identifier
  type : Ty
deriving Repr, Inhabited

/-- A structure; only fields with names are kept. -/
structure Structure where
  attributes : List Attribute
  name : Identifier
  fields : List NamedField
deriving Repr, Inhabited

/-- A variant of an enumeration. -/
structure Variant where
  attributes : List Attribute
  name : Identifier
deriving Repr, Inhabited

/-- An enumeration. -/
structure Enumeration where
  attributes : List Attribute
  name : Identifier
  variants : List Variant
deriving Repr, Inhabited

/-- How a function takes the value that it belongs to. -/
inductive Receiver where
  | value (isMutable : Bool)
  | reference (isMutable : Bool)
  /-- With a type of its own. -/
  | typed
deriving DecidableEq, Repr, Inhabited

/-- The head of a function. -/
structure Signature where
  name : Identifier
  /-- Whether the function has generic parameters. -/
  isGeneric : Bool
  receiver : Option Receiver
  /-- The number of arguments besides the receiver. -/
  arguments : Nat
  returns : Option Ty
deriving Repr, Inhabited

/-- A function of an implementation. -/
structure Function where
  attributes : List Attribute
  /-- Whether the function is public without restriction. -/
  isPublic : Bool
  signature : Signature
deriving Repr, Inhabited

/-- An implementation. -/
structure Implementation where
  /-- Whether it implements a trait. -/
  hasTrait : Bool
  target : Ty
  functions : List Function
deriving Repr, Inhabited

/-- An item of a source file. -/
inductive Item where
  | structure (s : Structure)
  | enumeration (e : Enumeration)
  | implementation (i : Implementation)
  | module (name : Identifier) (items : List Item)
  | other
deriving Repr, Inhabited

end ApiModels.Source
