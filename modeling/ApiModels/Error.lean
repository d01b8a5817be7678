/-!
# Errors

What can go wrong in a run, told by its cause. `Error` holds the errors of the program's own making,
`FileFault` those of the file system, and `Failure` is what ends an operation: one of these, perhaps
under the activity that it happened in, or a plain refusal. Each has its message in one place.
-/

namespace ApiModels

/-- Why the file system refuses to read or to write. -/
inductive FileFault where
  | missing
  | isDirectory
  | notDirectory
  /-- The file exists already and is not a directory. -/
  | exists
  /-- The bytes of the file are no text. -/
  | notText
  /-- A name, or the path itself, has too many bytes. -/
  | nameTooLong
  /-- The path holds a null character. -/
  | nullInName
deriving DecidableEq, Repr, Inhabited

/-- The text of a fault. -/
def FileFault.message : FileFault → String
  | .missing => "No such file or directory (os error 2)"
  | .isDirectory => "Is a directory (os error 21)"
  | .notDirectory => "Not a directory (os error 20)"
  | .exists => "File exists (os error 17)"
  | .notText => "stream did not contain valid UTF-8"
  | .nameTooLong => "File name too long (os error 36)"
  | .nullInName => "file name contained an unexpected NUL byte"

/-- An error of the program's own making. -/
inductive Error where
  /-- The file system refused, with this text. -/
  | io (text : String)
  /-- A catalog file does not have the form of a catalog. -/
  | catalog (file detail : String)
  /-- A source file does not have the form of source text. -/
  | parse (file detail : String)
  | invalidArgument (text : String)
  /-- A root that the inputs do not declare, or declare more than once. -/
  | unknownRoot (name : String)
  /-- A text could not be read as data. -/
  | serialization (detail : String)
deriving DecidableEq, Repr, Inhabited

namespace Error

/-- The detail of every text that does not have the form it should have. -/
def malformed : String := "the text does not have the expected form"

/-- The file name of source text that did not come from a file. -/
def unknownFile : String := "<unknown>"

/-- The text of an error. -/
def message : Error → String
  | .io text => "I/O error: " ++ text
  | .catalog file detail => "invalid type catalog " ++ file ++ ": " ++ detail
  | .parse file detail => "parse error in " ++ file ++ ": " ++ detail
  | .invalidArgument text => "invalid argument: " ++ text
  | .unknownRoot name => "root type " ++ name ++ " is not declared in the inputs"
  | .serialization detail => "serialization error: " ++ detail

/-- The text of the error behind an error, if there is one. -/
def cause? : Error → Option String
  | .io text => some text
  | _ => none

/-- The error that a fault of the file system becomes. -/
def ofFault (fault : FileFault) : Error := .io fault.message

end Error

/-- A step of a run that names the path it works on. -/
inductive Activity where
  | loadCatalog (path : String)
  | loadOptions (path : String)
  | readFile (path : String)
  | parseSource (path : String)
  | createDirectory (path : String)
  | writeFile (path : String)
deriving DecidableEq, Repr, Inhabited

/-- What is said when the step fails. -/
def Activity.message : Activity → String
  | .loadCatalog path => "Failed to load catalog " ++ path
  | .loadOptions path => "Failed to load options from " ++ path
  | .readFile path => "Failed to read file: " ++ path
  | .parseSource path => "Failed to parse Rust syntax in file: " ++ path
  | .createDirectory path => "Failed to create directory: " ++ path
  | .writeFile path => "Failed to write to file: " ++ path

/-- What ends an operation. -/
inductive Failure where
  | error (e : Error)
  /-- An error during an activity. -/
  | during (activity : Activity) (e : Error)
  /-- A fault of the file system during an activity. -/
  | fault (activity : Activity) (fault : FileFault)
  | inputMissing (path : String)
  | optionsMissing (path : String)
  | nothingFound (path : String)
  | unsupported (path : String)
deriving DecidableEq, Repr, Inhabited

/-- The text of a failure: under an activity, the activity's own. -/
def Failure.message : Failure → String
  | .error e => e.message
  | .during activity _ => activity.message
  | .fault activity _ => activity.message
  | .inputMissing path => "Input path does not exist: " ++ path
  | .optionsMissing path => "Options file does not exist: " ++ path
  | .nothingFound path => "No type catalogs or Rust files found in " ++ path
  | .unsupported path =>
    "Unsupported input " ++ path ++
      ": expected a type catalog (.yaml, .yml, .json), a .rs file or a directory"

end ApiModels
