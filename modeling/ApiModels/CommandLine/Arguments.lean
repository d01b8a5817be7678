import ApiModels.CommandLine.Setting

/-!
# Reading a command line

Words are read one after another. The value of a setting may stand in the same word or in the next
one, so a word is only checked when the next switch, setting or input follows, or at the end. An
unknown word is refused at once, whatever is still to be checked before it.
-/

namespace ApiModels.CommandLine

open ApiModels.Data (Encoding)

/-- What a command line asks for. -/
structure Arguments where
  input : String
  /-- The types to start from; without any, all that are no enumerations. -/
  roots : List String := []
  format : Encoding := .yaml
  /-- The file to write to, instead of the standard output. -/
  output : Option String := none
  /-- The file with options. -/
  config : Option String := none
  conventions : List Convention := []
  apiVersion : String := "1.0.0"
  basePath : Option String := none
  closedTypes : Option String := none
  closedPackages : Option String := none
  isVerbose : Bool := false
deriving DecidableEq, Repr, Inhabited

/-- Why a command line leads to no run. -/
inductive Stop where
  | missingInput
  | unknownWord
  | invalidValue
  /-- What may be given once is given again. -/
  | repeated
  /-- A switch has a value. -/
  | needlessValue
  | help
  | version
deriving DecidableEq, Repr, Inhabited

/-- A word that is not checked yet. -/
inductive Pending where
  | input (value : String)
  | setting (setting : Setting) (value : Option String)
deriving DecidableEq, Repr, Inhabited

/-- What has been read of a command line. -/
structure Reading where
  input : Option String := none
  /-- The settings in order. -/
  settings : List (Setting × String) := []
  isVerbose : Bool := false
  pending : Option Pending := none
deriving DecidableEq, Repr, Inhabited

namespace Reading

/-- Gives a setting its value. -/
def take (r : Reading) (setting : Setting) (value : String) : Except Stop Reading :=
  if !setting.isRepeatable && r.settings.any (·.1 == setting) then .error .repeated
  else if !setting.admits value then .error .invalidValue
  else .ok { r with settings := r.settings ++ [(setting, value)] }

/-- Checks the pending word. -/
def settle (r : Reading) : Except Stop Reading :=
  let settled := { r with pending := none }
  match r.pending with
  | none => .ok settled
  | some (.input value) =>
    if value.isEmpty then .error .invalidValue else .ok { settled with input := some value }
  | some (.setting _ none) => .error .invalidValue
  | some (.setting setting (some value)) => settled.take setting value

/-- A setting whose value is in the same word, or else to come. -/
def setting (r : Reading) (s : Setting) (value : Option String) : Except Stop Reading := do
  let r ← r.settle
  match value with
  | some value => r.take s value
  | none => return { r with pending := some (.setting s none) }

/-- A switch. -/
def switch (r : Reading) (s : Switch) : Except Stop Reading := do
  let r ← r.settle
  match s with
  | .verbose => if r.isVerbose then .error .repeated else .ok { r with isVerbose := true }
  | .help => .error .help
  | .version => .error .version

/-- A word behind two dashes, with a value behind an equals sign. -/
def long (r : Reading) (word : String) (value : Option String) : Except Stop Reading :=
  match Setting.ofWord? word, Switch.ofWord? word with
  | some s, _ => r.setting s value
  | none, some s => if value.isSome then .error .needlessValue else r.switch s
  | none, none => .error .unknownWord

/-- Letters behind one dash. What follows the letter of a setting is its value, but for an equals
sign in front. -/
def short (r : Reading) : List Char → Except Stop Reading
  | [] => .ok r
  | letter :: rest =>
    match Switch.ofLetter? letter, Setting.ofLetter? letter with
    | some s, _ => do short (← r.switch s) rest
    | none, none => .error .unknownWord
    | none, some s =>
      match rest with
      | [] => r.setting s none
      | '=' :: value => r.setting s (some (String.ofList value))
      | value => r.setting s (some (String.ofList value))

/-- Whether an input has been read, be it checked or not. -/
def hasInput (r : Reading) : Bool :=
  r.input.isSome || match r.pending with
    | some (.input _) => true
    | _ => false

/-- A word that stands for itself. -/
def plain (r : Reading) (value : String) : Except Stop Reading := do
  if r.hasInput then .error .unknownWord
  return { ← r.settle with pending := some (.input value) }

/-- A word with dashes, without them, or the value of the setting before it. -/
def word (r : Reading) (text : String) : Except Stop Reading :=
  match text.toList with
  | '-' :: '-' :: cs =>
    match cs.dropWhile (· ≠ '=') with
    | [] => r.long (String.ofList cs) none
    | _ :: value => r.long (String.ofList (cs.takeWhile (· ≠ '='))) (some (String.ofList value))
  | '-' :: letter :: letters => r.short (letter :: letters)
  | _ =>
    match r.pending with
    | some (.setting s none) => .ok { r with pending := some (.setting s (some text)) }
    | _ => r.plain text

/-- Reads words. Behind two dashes alone every word stands for itself. -/
def words (r : Reading) : List String → Except Stop Reading
  | [] => r.settle
  | "--" :: rest => do (← rest.foldlM plain r).settle
  | text :: rest => do words (← r.word text) rest

/-- The values of a setting in order. -/
def values (r : Reading) (setting : Setting) : List String :=
  (r.settings.filter (·.1 == setting)).map (·.2)

/-- The value of a setting that is given at most once. -/
def value? (r : Reading) (setting : Setting) : Option String := (r.values setting).head?

end Reading

/-- What a command line asks for, or why it leads to no run. -/
def Arguments.read (words : List String) : Except Stop Arguments := do
  let r ← Reading.words {} words
  match r.input with
  | none => .error .missingInput
  | some input => return {
      input
      roots := r.values .root
      format := ((r.value? .format).bind format?).getD .yaml
      output := r.value? .output
      config := r.value? .config
      conventions := (r.values .convention).filterMap Convention.ofLabel?
      apiVersion := (r.value? .apiVersion).getD "1.0.0"
      basePath := r.value? .basePath
      closedTypes := r.value? .closedTypes
      closedPackages := r.value? .closedPackages
      isVerbose := r.isVerbose }

end ApiModels.CommandLine
