import ApiModels.Data.Format
import ApiModels.Data.Tree
import ApiModels.Naming.Convention
import ApiModels.Opacity
import ApiModels.Text.Blank
import ApiModels.Text.Lines

/-!
# Options

What a run can be told besides its inputs: which types stay closed and which naming conventions
count. A file of options gives some of the fields; the others keep their defaults.
-/

namespace ApiModels

open ApiModels.Data

/-- The options of a run. -/
structure Options where
  closedTypes : List String :=
    ["org.joda.time.DateTime", "java.util.UUID", "java.lang.Class", "uuid::Uuid",
     "serde_json::Value"]
  closedPackages : List String := ["org.joda.time", "java.math", "chrono::"]
  reserved : List String := ["javax."]
  base : String := "java.lang.Object"
  /-- The conventions to use; without any, those that the catalog shows. -/
  conventions : List Convention := []
deriving DecidableEq, Repr, Inhabited

/-- The entries of a list with commas, trimmed, without the empty ones. -/
def splitElements (list : String) : List String :=
  ((Text.splitChars ',' list.toList).map Text.trimChars).filterMap fun element =>
    if element.isEmpty then none else some (String.ofList element)

namespace Options

/-- The conventions of a run that says nothing and shows nothing. -/
def fallbackConventions : List Convention := [.jaxb, .jackson]

/-- Closes the types of a list with commas. -/
def addClosedTypes (o : Options) (list : String) : Options :=
  { o with closedTypes := o.closedTypes ++ splitElements list }

/-- Closes the packages of a list with commas. -/
def addClosedPackages (o : Options) (list : String) : Options :=
  { o with closedPackages := o.closedPackages ++ splitElements list }

/-- The rules that the options give. -/
def policy (o : Options) : Opacity where
  reserved := o.reserved
  base := o.base
  types := o.closedTypes
  packages := o.closedPackages

/-- The conventions in use: those of the options, or else those detected, or else the fallback. -/
def effectiveConventions (o : Options) (detected : List Convention) : List Convention :=
  if !o.conventions.isEmpty then o.conventions
  else if !detected.isEmpty then detected
  else fallbackConventions

/-- The chain of translators in use. -/
def chain (o : Options) (detected : List Convention) : List Translator :=
  conventionChain (o.effectiveConventions detected)

/-- The options as a tree. Conventions are left out when there are none; every other list is
written even when it is empty. -/
def tree (o : Options) : Tree :=
  .map ([("types_to_treat_as_opaque", .texts o.closedTypes),
      ("packages_to_treat_as_opaque", .texts o.closedPackages),
      ("reserved_prefixes", .texts o.reserved), ("base_object", .text o.base)] ++
    if o.conventions.isEmpty then []
    else [("conventions", .texts (o.conventions.map (·.label)))])

/-- A convention by its word. -/
def convention? {V : Type} (format : Format V) (v : V) : Decode Convention := do
  Convention.ofLabel? (← format.choice? v)

/-- The options that a value holds. -/
def decode? {V : Type} (format : Format V) (v : V) : Decode Options := do
  let fields ← format.fields?
    ["types_to_treat_as_opaque", "packages_to_treat_as_opaque", "reserved_prefixes",
     "base_object", "conventions"] v
  let defaults : Options := {}
  return {
    closedTypes := ← fields.withDefault 0 defaults.closedTypes format.texts?
    closedPackages := ← fields.withDefault 1 defaults.closedPackages format.texts?
    reserved := ← fields.withDefault 2 defaults.reserved format.texts?
    base := ← fields.withDefault 3 defaults.base format.text?
    conventions := ← fields.withDefault 4 [] (format.listOf (convention? format)) }

end Options

end ApiModels
