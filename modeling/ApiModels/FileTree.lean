import ApiModels.Error
import ApiModels.Path

/-!
# File trees

Files and directories as a value. A path is followed name by name from the root or from the current
directory; the position that it leads to is the list of names from the root.
-/

namespace ApiModels

/-- What a file holds. -/
inductive Content where
  | text (value : String)
  /-- Bytes that are no text. -/
  | bytes
deriving DecidableEq, Repr, Inhabited

/-- A file or a directory; the entries of a directory come in no particular order. -/
inductive Node where
  | file (content : Content)
  | directory (entries : List (String × Node))
deriving Repr

instance : Inhabited Node := ⟨.directory []⟩

/-- A tree of files and the names that lead to the current directory. -/
structure FileTree where
  root : Node := .directory []
  here : List String := []
deriving Repr, Inhabited

namespace Node

/-- Whether a node is a directory. -/
def isDirectory : Node → Bool
  | .directory _ => true
  | .file _ => false

/-- The entry of this name. -/
def lookup? (entries : List (String × Node)) (name : String) : Option Node :=
  (entries.find? (·.1 == name)).map (·.2)

/-- The node of this name in a directory. -/
def child? (node : Node) (name : String) : Option Node :=
  match node with
  | .directory entries => lookup? entries name
  | .file _ => none

/-- The node at a position. -/
def at? (node : Node) : List String → Option Node
  | [] => some node
  | name :: rest => (node.child? name).bind fun child => child.at? rest

/-- Sets the entry of this name, in its place or else at the end. -/
def setEntry (name : String) (node : Node) : List (String × Node) → List (String × Node)
  | [] => [(name, node)]
  | (other, old) :: rest =>
    if other == name then (name, node) :: rest else (other, old) :: setEntry name node rest

/-- Puts a node at a position; directories on the way that are missing are made. -/
def put (new : Node) : List String → Node → Node
  | [], _ => new
  | name :: rest, .directory entries =>
    .directory (setEntry name (put new rest ((lookup? entries name).getD default)) entries)
  | _ :: _, .file content => .file content

end Node

namespace FileTree

/-! ## Following paths -/

/-- The number of bytes that a name may have. -/
def nameLimit : Nat := 255

/-- The number of bytes that a path may have. -/
def pathLimit : Nat := 4095

/-- Refuses what can be the path of nothing. -/
def checkPath (path : String) : Except FileFault Unit :=
  if path.toList.contains (Char.ofNat 0) then .error .nullInName
  else if path.isEmpty then .error .missing
  else if path.utf8ByteSize > pathLimit then .error .nameTooLong
  else .ok ()

/-- Refuses a name that is too long. -/
def checkName (name : String) : Except FileFault Unit :=
  if name.utf8ByteSize > nameLimit then .error .nameTooLong else .ok ()

/-- Goes on from a position by a part of a path. -/
def enter (t : FileTree) (position : List String) (part : String) :
    Except FileFault (List String) :=
  match t.root.at? position with
  | none => .error .missing
  | some (.file _) => .error .notDirectory
  | some (.directory entries) =>
    if part == "" || part == "." then .ok position
    else if part == ".." then .ok position.dropLast
    else do
      checkName part
      match Node.lookup? entries part with
      | some _ => .ok (position ++ [part])
      | none => .error .missing

/-- Follows parts of a path from where the path begins. -/
def follow (t : FileTree) (path : String) (parts : List String) : Except FileFault (List String) :=
  parts.foldlM t.enter (if Path.isAbsolute path then [] else t.here)

/-- The position that a path leads to. -/
def locate (t : FileTree) (path : String) : Except FileFault (List String) := do
  checkPath path
  t.follow path (Path.parts path)

/-- The node that a path leads to. -/
def node (t : FileTree) (path : String) : Except FileFault Node := do
  match t.root.at? (← t.locate path) with
  | some node => .ok node
  | none => .error .missing

/-- Whether a path leads to anything. -/
def has (t : FileTree) (path : String) : Bool := (t.node path).toOption.isSome

/-- Whether a path leads to a directory. -/
def hasDirectory (t : FileTree) (path : String) : Bool :=
  (t.node path).toOption.any Node.isDirectory

/-- Whether a path leads to a file. -/
def hasFile (t : FileTree) (path : String) : Bool :=
  (t.node path).toOption.any (!·.isDirectory)

/-- The text of a file. -/
def readText (t : FileTree) (path : String) : Except FileFault String := do
  match ← t.node path with
  | .directory _ => .error .isDirectory
  | .file .bytes => .error .notText
  | .file (.text text) => .ok text

/-! ## Changes -/

/-- A change of a file tree; what was changed before a fault stays changed. -/
abbrev Change := ExceptT FileFault (StateM FileTree)

/-- The position of the directory that a path leads into, and the name there. -/
def place (t : FileTree) (path : String) : Except FileFault (List String × String) := do
  checkPath path
  let parts := Path.parts path
  let position ← t.follow path parts.dropLast
  match t.root.at? position with
  | some (.directory _) =>
    let name := parts.getLastD ""
    checkName name
    return (position, name)
  | some (.file _) => .error .notDirectory
  | none => .error .missing

/-- Whether a part of a path leads to a directory that is there already. -/
def isStep (part : String) : Bool := part == "" || part == "." || part == ".."

/-- Makes a directory in a directory that is there. -/
def makeDirectory (path : String) : Change Unit := do
  let t ← get
  let (position, name) ← ExceptT.mk (pure (t.place path))
  if isStep name || (t.root.at? (position ++ [name])).isSome then throw .exists
  set { t with root := .put (.directory []) (position ++ [name]) t.root }

/-- Makes the first of the paths a directory, and before it the next ones if they are missing. -/
def makeDirectories : List String → Change Unit
  | [] => throw .missing
  | path :: outer => do
    if path.isEmpty then return
    let orThere (fault : FileFault) : Change Unit := do
      if !(← get).hasDirectory path then throw fault
    tryCatch (makeDirectory path) fun fault =>
      match fault with
      | .missing => do
        makeDirectories outer
        tryCatch (makeDirectory path) orThere
      | fault => orThere fault

/-- Writes a text to a file, which need not be there; its directory has to. -/
def writeText (path text : String) : Change Unit := do
  let t ← get
  let (position, name) ← ExceptT.mk (pure (t.place path))
  if isStep name || (t.root.at? (position ++ [name])).any Node.isDirectory then throw .isDirectory
  set { t with root := .put (.file (.text text)) (position ++ [name]) t.root }

end FileTree

end ApiModels
