import ApiModels.CatalogFile
import ApiModels.Options
import ApiModels.Scan
import ApiModels.Source.File
import ApiModels.Source.Resolve

/-!
# Inputs of a run

Catalogs, options and source files are read from a file tree. A directory is searched for both kinds
of input: the catalogs come first, and source files that cannot be read are left out.
-/

namespace ApiModels

open ApiModels.Data (Encoding)

/-- The encoding of a file, by its name. -/
def Data.Encoding.ofPath (path : String) : Encoding :=
  if Path.extension? path == some "json" then .json else .yaml

namespace FileTree

/-- The text of a file, or the error that a fault becomes. -/
def text (t : FileTree) (path : String) : Except Error String :=
  (t.readText path).mapError Error.ofFault

/-- The catalog in a file. -/
def loadCatalog (t : FileTree) (path : String) : Except Error Catalog := do
  let text ← t.text path
  match (Encoding.ofPath path).read? CatalogFile.catalog? text with
  | some catalog => .ok catalog
  | none => .error (.catalog path Error.malformed)

/-- The options in a file. -/
def loadOptions (t : FileTree) (path : String) : Except Error Options := do
  let text ← t.text path
  match (Encoding.ofPath path).read? Options.decode? text with
  | some options => .ok options
  | none => .error (.invalidArgument (path ++ ": " ++ Error.malformed))

/-- The items of a source text; `path` says where it comes from. -/
def parseText (path text : String) : Except Failure (List Source.Item) :=
  match Source.parse? text with
  | some items => .ok items
  | none => .error (.during (.parseSource path) (.parse path Error.malformed))

/-- The items of a source file. -/
def parseFile (t : FileTree) (path : String) : Except Failure (List Source.Item) :=
  match t.readText path with
  | .ok text => parseText path text
  | .error fault => .error (.fault (.readFile path) fault)

/-- The catalog in a file, as a part of a run. -/
def loadCatalogInput (t : FileTree) (path : String) : Except Failure Catalog :=
  (t.loadCatalog path).mapError (.during (.loadCatalog path))

/-- What the inputs found by a scan declare. -/
def loadScan (t : FileTree) (s : Scan) : Except Failure Catalog := do
  let catalogs ← s.catalogs.mapM t.loadCatalogInput
  let files := s.sources.filterMap fun path => (t.parseFile path).toOption
  return KeyedList.extend (catalogs.foldl KeyedList.extend .empty) (Source.resolve files)

/-- Whether a file that is no source file can be a catalog, by its name. -/
def isData (path : String) : Bool :=
  Scan.isCatalogFile path || ["yaml", "yml", "json"].any (Path.extension? path == some ·)

/-- What an input declares: a directory, a source file or a catalog. -/
def loadInput (t : FileTree) (path : String) : Except Failure Catalog := do
  if t.hasDirectory path then
    let s := t.scan path
    if s.isEmpty then .error (.nothingFound path) else t.loadScan s
  else if Scan.isSourceFile path then return Source.resolve [← t.parseFile path]
  else if isData path then t.loadCatalogInput path
  else .error (.unsupported path)

end FileTree

end ApiModels
