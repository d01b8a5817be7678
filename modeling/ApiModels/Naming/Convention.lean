import ApiModels.Catalog
import ApiModels.Naming

/-!
# Naming conventions

Families of annotations that carry names, the table of each family, and which families the
annotations of a catalog belong to.
-/

namespace ApiModels

/-- A family of naming annotations, in the order in which translators ask them. -/
inductive Convention where
  | jaxb
  | jackson
  | serde
deriving DecidableEq, Repr, Inhabited

namespace Convention

/-- All conventions in order. -/
def all : List Convention := [.jaxb, .jackson, .serde]

/-- The word for a convention in options and on the command line. -/
def label : Convention → String
  | .jaxb => "jaxb"
  | .jackson => "jackson"
  | .serde => "serde"

/-- The convention that a word stands for. -/
def ofLabel? (word : String) : Option Convention := all.find? (·.label == word)

/-- The names that begin the annotations of a convention's package. -/
def package : Convention → String
  | .jaxb => "javax.xml.bind.annotation."
  | .jackson => "com.fasterxml.jackson.annotation."
  | .serde => "serde::"

/-- The annotations of a convention. -/
def table : Convention → AnnotationTable
  | .jaxb =>
    { ignore := ["javax.xml.bind.annotation.XmlTransient"]
      element := [⟨"javax.xml.bind.annotation.XmlElement", "name"⟩]
      root := [⟨"javax.xml.bind.annotation.XmlRootElement", "name"⟩] }
  | .jackson =>
    { ignore := ["com.fasterxml.jackson.annotation.JsonIgnore"]
      element := [⟨"com.fasterxml.jackson.annotation.JsonProperty", "value"⟩]
      root := [⟨"com.fasterxml.jackson.annotation.JsonRootName", "value"⟩] }
  | .serde =>
    { ignore := ["serde::skip", "serde::skip_serializing"]
      element := [⟨"serde", "rename"⟩]
      root := [⟨"serde", "rename"⟩] }

/-- Whether an annotation belongs to the convention: its name lies in the convention's package, or
is the one annotation that has the convention's own name. -/
def covers (convention : Convention) (a : Annotation) : Bool :=
  convention.package.toList.isPrefixOf a.name.toList ||
    (convention == .serde && a.name == "serde")

/-- The conventions that some annotation of the catalog belongs to, in order. -/
def detect (catalog : Catalog) : List Convention :=
  all.filter fun convention =>
    catalog.declarations.any fun d => d.allAnnotations.any convention.covers

end Convention

/-- The chain that asks the conventions in order and falls back on declared names. -/
def conventionChain (conventions : List Convention) : List Translator :=
  conventions.map (.table ·.table) ++ [.declared]

end ApiModels
