import ApiModels.Text.Lines

/-!
# Paths

Paths are texts: names between slashes. An empty name or a single dot behind another name means
nothing; a dot at the front of a path does.
-/

namespace ApiModels.Path

open ApiModels.Text

/-- What stands between the slashes, empty parts included. -/
def parts (path : String) : List String := (splitChars '/' path.toList).map String.ofList

/-- Whether a path begins at the root. -/
def isAbsolute (path : String) : Bool := path.toList.head? == some '/'

/-- Drops the parts without meaning from the end of a path, given with its last part first. -/
def dropIdle (isRelative : Bool) : List String → List String
  | [] => []
  | [part] => if part == "" || (part == "." && !isRelative) then [] else [part]
  | part :: next :: rest =>
    if part == "" || part == "." then dropIdle isRelative (next :: rest) else part :: next :: rest

/-- The parts with a meaning at the end of a path, the last first, without the root. -/
def lastParts (path : String) : List String :=
  if isAbsolute path then dropIdle false (parts path).tail.reverse
  else dropIdle true (parts path).reverse

/-- The path without its last name; the root and the empty path have none. -/
def parent? (path : String) : Option String :=
  match lastParts path with
  | [] => none
  | _ :: rest =>
    let outer := "/".intercalate (dropIdle (!isAbsolute path) rest).reverse
    some (if isAbsolute path then "/" ++ outer else outer)

/-- The path, the path without its last name, and so on; the number of parts bounds how many. -/
def outward (path : String) : List String :=
  go (parts path).length path
where
  /-- At most so many further paths. -/
  go : Nat → String → List String
    | 0, path => [path]
    | fuel + 1, path =>
      path :: match parent? path with
        | none => []
        | some outer => go fuel outer

/-- The last name of a path. -/
def name? (path : String) : Option String :=
  match lastParts path with
  | [] => none
  | part :: _ => if part == "." || part == ".." then none else some part

/-- What follows the last dot of a name, unless only that dot and what follows it is the name. -/
def extensionOf? (name : String) : Option String :=
  let reversed := name.toList.reverse
  match reversed.dropWhile (· ≠ '.') with
  | [] => none
  | [_] => none
  | _ :: _ => some (String.ofList (reversed.takeWhile (· ≠ '.')).reverse)

/-- What follows the last dot of the last name. -/
def extension? (path : String) : Option String := (name? path).bind extensionOf?

/-- The path of `name` in the directory `path`. -/
def join (path name : String) : String :=
  if path.isEmpty || path.toList.getLast? == some '/' then path ++ name else path ++ "/" ++ name

end ApiModels.Path
