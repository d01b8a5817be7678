import ApiModels.CommandLine.Arguments
import ApiModels.Document
import ApiModels.Input
import ApiModels.Walk

/-!
# A run

A run loads its inputs, walks from the roots and writes the document, to the standard output or to a
file. All that it reads and writes is in a file tree. A run that fails prints nothing.
-/

namespace ApiModels

/-- A part of a run that may change files; what was changed before a failure stays changed. -/
abbrev FileAction := ExceptT Failure (StateM FileTree)

namespace FileTree

/-- A change whose faults are told by the activity that it belongs to. -/
def Change.within (activity : Activity) (change : Change Unit) : FileAction Unit :=
  ExceptT.mk do
    match ← change.run with
    | .ok () => return .ok ()
    | .error fault => return .error (.fault activity fault)

/-- Writes a text to a file and makes the directories on the way. -/
def save (path text : String) : FileAction Unit := do
  if let some outer := Path.parent? path then
    (makeDirectories (Path.outward outer)).within (.createDirectory outer)
  (writeText path text).within (.writeFile path)

end FileTree

namespace CommandLine.Arguments

/-- Refuses arguments that name files which are not there. -/
def check (a : Arguments) (t : FileTree) : Except Failure Unit :=
  if !t.has a.input then .error (.inputMissing a.input)
  else match a.config with
    | none => .ok ()
    | some path => if t.hasFile path then .ok () else .error (.optionsMissing path)

/-- The options of the file, with those of the command line added. -/
def options (a : Arguments) (t : FileTree) : Except Failure Options := do
  let o ← match a.config with
    | none => .ok {}
    | some path => (t.loadOptions path).mapError (.during (.loadOptions path))
  let o := (a.closedTypes.map o.addClosedTypes).getD o
  let o := (a.closedPackages.map o.addClosedPackages).getD o
  return if a.conventions.isEmpty then o else { o with conventions := a.conventions }

/-- The types to start from. -/
def rootsIn (a : Arguments) (catalog : Catalog) : Except Failure (List TypeRef) :=
  if a.roots.isEmpty then .ok (Walk.defaultRoots catalog)
  else a.roots.mapM fun name =>
    match catalog.lookup? name with
    | some d => .ok d.typeRef
    | none => .error (.error (.unknownRoot name))

/-- The document that the inputs give. -/
def document (a : Arguments) (t : FileTree) : Except Failure Document := do
  let catalog ← t.loadInput a.input
  let options ← a.options t
  let roots ← a.rootsIn catalog
  let w : Walk := ⟨catalog, options.policy, options.chain (Convention.detect catalog)⟩
  return Document.ofModels a.apiVersion a.basePath (w.mergedModels roots)

/-- Writes the document; gives the text for the standard output. -/
def run (a : Arguments) : FileAction String := do
  let document ← ExceptT.mk (pure (a.document (← get)))
  let text := a.format.render document.tree
  match a.output with
  | some path =>
    FileTree.save path text
    return ""
  | none => return text ++ "\n"

end CommandLine.Arguments

namespace CommandLine

/-- How a run ends. -/
structure Outcome where
  status : Nat := 0
  output : String := ""
  /-- What is said of a failure. -/
  complaint : String := ""
  files : FileTree := {}
deriving Repr, Inhabited

/-- The name and version of the program. -/
def versionText : String := "model-doclet 0.1.0\n"

/-- How the program is called. -/
def helpText : String :=
  "\n".intercalate
    ["Extracts Swagger model definitions by walking the type graph reachable from a root type",
     "",
     "Usage: model-doclet [OPTIONS] <INPUT>",
     "",
     "Arguments:",
     "  <INPUT>  Type catalog file, Rust source file, or directory containing either",
     "",
     "Options:",
     "  -r, --root <TYPE>                 Root type to document (repeatable)",
     "  -f, --format <FORMAT>             Output format: yaml or json",
     "  -o, --output <FILE>               Output file path",
     "  -c, --config <FILE>               Options file (YAML or JSON)",
     "      --convention <CONVENTION>     Naming convention: jaxb, jackson or serde (repeatable)",
     "      --api-version <API_VERSION>   API version reported in the output",
     "      --base-path <BASE_PATH>       Base path reported in the output",
     "      --opaque-types <TYPES>        Comma-separated types never expanded into models",
     "      --opaque-packages <PREFIXES>  Comma-separated name prefixes never expanded into models",
     "  -v, --verbose                     Enable verbose output",
     "  -h, --help                        Print help",
     "  -V, --version                     Print version",
     ""]

/-- What is said of a command line that cannot be read. -/
def Stop.message : Stop → String
  | .missingInput => "an input is missing"
  | .unknownWord => "an argument is unknown"
  | .invalidValue => "a value is missing or invalid"
  | .repeated => "an argument is given twice"
  | .needlessValue => "a value is given to an argument that takes none"
  | .help => helpText
  | .version => versionText

/-- Checks the arguments and runs. -/
def start (a : Arguments) : FileAction String := do
  ExceptT.mk (pure (a.check (← get)))
  a.run

/-- The whole program: 0 is success, 1 a failure, and 2 a command line that cannot be read. -/
def execute (words : List String) (files : FileTree) : Outcome :=
  match Arguments.read words with
  | .error .help => { output := helpText, files }
  | .error .version => { output := versionText, files }
  | .error stop => { status := 2, complaint := stop.message, files }
  | .ok a =>
    match ((start a).run).run files with
    | (.ok output, files) => { output, files }
    | (.error failure, files) => { status := 1, complaint := failure.message, files }

end CommandLine

end ApiModels
