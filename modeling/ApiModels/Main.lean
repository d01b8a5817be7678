import ApiModels.CommandLine.Run

/-!
# The program

Reads from the computer what the arguments name, runs on it as a file tree, and writes what the run
has written.
-/

namespace ApiModels.Computer

/-- What a file of the computer holds. -/
def readContent (path : String) : IO Content := do
  let bytes ← try IO.FS.readBinFile path catch _ => return .bytes
  return match String.fromUTF8? bytes with
    | some text => .text text
    | none => .bytes

/-- The node at a path of the computer, if there is one; a directory without its entries. -/
def readNode? (path : String) : IO (Option Node) := do
  let place := (← IO.currentDir) / path
  if ← place.isDir then return some (.directory [])
  else if ← place.pathExists then return some (.file (← readContent path))
  else return none

/-- The node at a path of the computer with all that a scan looks at. -/
partial def readAll (path : String) : IO Node := do
  let place := (← IO.currentDir) / path
  if !(← place.isDir) then return .file (← readContent path)
  let found := ((← place.readDir).map (·.fileName)).filter (!Scan.isSkipped ·)
  let entries ← found.mapM fun name => do return (name, ← readAll (Path.join path name))
  return .directory entries.toList

/-- The path of a position. -/
def pathOf (position : List String) : String := "/" ++ "/".intercalate position

/-- Adds what is on the way along a path; gives the position that it leads to. -/
def follow (t : FileTree) (path : String) : IO (FileTree × List String) :=
  (Path.parts path).foldlM (fun (t, position) part => do
      if part == "" || part == "." then return (t, position)
      if part == ".." then return (t, position.dropLast)
      let position := position ++ [part]
      if (t.root.at? position).isSome then return (t, position)
      match ← readNode? (pathOf position) with
      | some node => return ({ t with root := .put node position t.root }, position)
      | none => return (t, position))
    (t, if Path.isAbsolute path then [] else t.here)

/-- The files that a run with these arguments may look at. -/
def files (a : CommandLine.Arguments) : IO FileTree := do
  let here := ((Path.parts (toString (← IO.currentDir))).filter (!·.isEmpty))
  let (t, position) ← follow { root := .put (.directory []) here (.directory []), here } a.input
  let withNode (node : Node) : FileTree := { t with root := .put node position t.root }
  let t ← if t.hasDirectory a.input then withNode <$> readAll a.input else pure t
  [a.config, a.output].foldlM (fun t path => do
    match path with
    | some path => return (← follow t path).1
    | none => return t) t

/-- Writes the file that the arguments name, as it is in the tree. -/
def save (a : CommandLine.Arguments) (t : FileTree) : IO Unit := do
  if let some path := a.output then
    if let .ok text := t.readText path then
      if let some outer := Path.parent? path then
        if !outer.isEmpty then IO.FS.createDirAll outer
      IO.FS.writeFile path text

end ApiModels.Computer

open ApiModels in
/-- Runs the program on the computer's files. -/
def main (words : List String) : IO UInt32 := do
  let arguments := (CommandLine.Arguments.read words).toOption
  let t ← match arguments with
    | some a => Computer.files a
    | none => pure {}
  let outcome := CommandLine.execute words t
  if outcome.status = 0 then
    if let some a := arguments then Computer.save a outcome.files
  IO.print outcome.output
  if !outcome.complaint.isEmpty then IO.eprintln ("Error: " ++ outcome.complaint)
  return outcome.status.toUInt32
