import ApiModels.FileTree

/-!
# Scanning directories

The source files and catalog files below a directory, known by their names. Hidden entries and those
named `target` are passed over, except for the directory itself. Entries come in the order of their
names, and a directory is searched where it stands.
-/

namespace ApiModels

/-- What is found below a directory. -/
structure Scan where
  sources : List String := []
  catalogs : List String := []
  warnings : List String := []
deriving DecidableEq, Repr, Inhabited

namespace Scan

/-- The endings of the names of catalog files. -/
def catalogEndings : List String := [".types.yaml", ".types.yml", ".types.json"]

/-- Whether a path names a source file. -/
def isSourceFile (path : String) : Bool := Path.extension? path == some "rs"

/-- Whether a path names a catalog file. -/
def isCatalogFile (path : String) : Bool :=
  (Path.name? path).any fun name => catalogEndings.any (·.toList.isSuffixOf name.toList)

/-- Whether an entry is passed over. -/
def isSkipped (name : String) : Bool := name.toList.head? == some '.' || name == "target"

/-- Whether one name does not come behind another in the order of their characters. -/
def inOrder (a b : String) : Bool := !decide (b < a)

mutual
/-- The paths of the files at and below a node. -/
def filesBelow (path : String) : Node → List String
  | .file _ => [path]
  | .directory entries =>
    ((filesOf path entries).mergeSort fun a b => inOrder a.1 b.1).flatMap (·.2)

/-- The paths of the files at and below each entry, by the entry's name. -/
def filesOf (path : String) : List (String × Node) → List (String × List String)
  | [] => []
  | (name, node) :: rest =>
    if isSkipped name then filesOf path rest
    else (name, filesBelow (Path.join path name) node) :: filesOf path rest
end

/-- What is said of a path that cannot be searched. -/
def warning (path : String) (fault : FileFault) : String :=
  "Failed to access path: IO error for operation on " ++ path ++ ": " ++ fault.message

/-- Whether nothing is found. -/
def isEmpty (s : Scan) : Bool := s.sources.isEmpty && s.catalogs.isEmpty

end Scan

/-- What is found at and below a path. -/
def FileTree.scan (t : FileTree) (path : String) : Scan :=
  match t.node path with
  | .error fault => { warnings := [Scan.warning path fault] }
  | .ok node =>
    let files := Scan.filesBelow path node
    { sources := files.filter Scan.isSourceFile
      catalogs := files.filter fun file => !Scan.isSourceFile file && Scan.isCatalogFile file }

end ApiModels
