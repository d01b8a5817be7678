/-!
# Type references

A type as it is named at a use site: a qualified name and its type arguments. Every type that is
not declared in the inputs is known by such a reference only.
-/

namespace ApiModels

/-- A qualified type name with its type arguments in order. -/
structure TypeRef where
  name : String
  arguments : List TypeRef := []
deriving Repr, Inhabited

namespace TypeRef

mutual
/-- Whether two references are the same. -/
def same : TypeRef → TypeRef → Bool
  | ⟨n, as⟩, ⟨m, bs⟩ => n == m && sameList as bs

/-- Whether two lists of references are the same. -/
def sameList : List TypeRef → List TypeRef → Bool
  | [], [] => true
  | a :: as, b :: bs => same a b && sameList as bs
  | _, _ => false
end

mutual
theorem same_iff : ∀ s t : TypeRef, same s t = true ↔ s = t
  | ⟨n, as⟩, ⟨m, bs⟩ => by simp [same, sameList_iff as bs]

theorem sameList_iff : ∀ as bs : List TypeRef, sameList as bs = true ↔ as = bs
  | [], [] => by simp [sameList]
  | [], _ :: _ => by simp [sameList]
  | _ :: _, [] => by simp [sameList]
  | a :: as, b :: bs => by simp [sameList, same_iff a b, sameList_iff as bs]
end

instance : DecidableEq TypeRef := fun s t => decidable_of_iff _ (same_iff s t)

/-- The reference that stands for a text without any name. -/
def unknown : TypeRef := ⟨"unknown", []⟩

/-- An array of `element`. -/
def array (element : TypeRef) : TypeRef := ⟨"array", [element]⟩

/-- The first type argument: the element type of a container. -/
def element? (t : TypeRef) : Option TypeRef := t.arguments.head?

mutual
/-- The written form: `name` or `name<argument, ...>`. -/
def display : TypeRef → String
  | ⟨name, []⟩ => name
  | ⟨name, a :: as⟩ => name ++ "<" ++ display a ++ displayRest as ++ ">"

/-- The written forms of further arguments, each after a comma. -/
def displayRest : List TypeRef → String
  | [] => ""
  | a :: as => ", " ++ display a ++ displayRest as
end

/-- What follows the last `sep` of `cs`, or all of `cs`. -/
def afterLast (sep : Char) (cs : List Char) : List Char := (cs.reverse.takeWhile (· ≠ sep)).reverse

/-- What follows the last `::` of `cs`, or all of `cs`. The reversed text is read from its end, so
that of three colons the last two are the separator. -/
def afterLastPath (cs : List Char) : List Char :=
  go [] cs.reverse
where
  /-- Collects `seen` until two colons come next in the reversed text. -/
  go (seen : List Char) : List Char → List Char
    | ':' :: ':' :: _ => seen
    | c :: cs => go (c :: seen) cs
    | [] => seen

/-- The last segment of a name whose parts stand between `.` or `::`. -/
def simpleNameOf (name : String) : String :=
  String.ofList (afterLast '.' (afterLastPath name.toList))

/-- The last segment of the reference's name. -/
def simpleName (t : TypeRef) : String := simpleNameOf t.name

/-- The names of built-in scalars, whatever the inputs declare. -/
def builtinNames : List String :=
  ["boolean", "byte", "char", "short", "int", "long", "float", "double", "void",
   "java.lang.String", "java.lang.Boolean", "java.lang.Byte", "java.lang.Character",
   "java.lang.Short", "java.lang.Integer", "java.lang.Long", "java.lang.Float",
   "java.lang.Double", "java.lang.Void", "java.util.Date",
   "bool", "str", "String", "i8", "i16", "i32", "i64", "i128", "isize",
   "u8", "u16", "u32", "u64", "u128", "usize", "f32", "f64", "()"]

/-- Whether `name` is the name of a built-in scalar. -/
def isBuiltinName (name : String) : Bool := builtinNames.contains name

/-- Whether the reference names a built-in scalar. -/
def isBuiltin (t : TypeRef) : Bool := isBuiltinName t.name

end TypeRef

end ApiModels
