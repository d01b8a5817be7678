import ApiModels.Data.Encoding
import ApiModels.Naming.Convention

/-!
# Settings and switches

What a command line may hold besides its input: settings, which take a value, and switches.
-/

namespace ApiModels.CommandLine

open ApiModels.Data (Encoding)

/-- The encoding of a word. -/
def format? (word : String) : Option Encoding :=
  match word with
  | "json" => some .json
  | "yaml" => some .yaml
  | _ => none

/-- What takes a value. -/
inductive Setting where
  | root
  | format
  | output
  | config
  | convention
  | apiVersion
  | basePath
  | closedTypes
  | closedPackages
deriving DecidableEq, Repr, Inhabited

namespace Setting

/-- All settings. -/
def all : List Setting :=
  [.root, .format, .output, .config, .convention, .apiVersion, .basePath, .closedTypes,
   .closedPackages]

/-- The word of a setting, behind two dashes. -/
def word : Setting → String
  | .root => "root"
  | .format => "format"
  | .output => "output"
  | .config => "config"
  | .convention => "convention"
  | .apiVersion => "api-version"
  | .basePath => "base-path"
  | .closedTypes => "opaque-types"
  | .closedPackages => "opaque-packages"

/-- The letter of a setting, behind one dash. -/
def letter? : Setting → Option Char
  | .root => some 'r'
  | .format => some 'f'
  | .output => some 'o'
  | .config => some 'c'
  | _ => none

/-- Whether a setting may be given more than once. -/
def isRepeatable : Setting → Bool
  | .root => true
  | .convention => true
  | _ => false

/-- Whether a setting may have this value. -/
def admits (setting : Setting) (value : String) : Bool :=
  match setting with
  | .format => (format? value).isSome
  | .convention => (Convention.ofLabel? value).isSome
  | .output => !value.isEmpty
  | .config => !value.isEmpty
  | _ => true

/-- The setting of a word. -/
def ofWord? (word : String) : Option Setting := all.find? (·.word == word)

/-- The setting of a letter. -/
def ofLetter? (letter : Char) : Option Setting := all.find? (·.letter? == some letter)

end Setting

/-- What takes no value. -/
inductive Switch where
  | verbose
  | help
  | version
deriving DecidableEq, Repr, Inhabited

namespace Switch

/-- All switches. -/
def all : List Switch := [.verbose, .help, .version]

/-- The word of a switch, behind two dashes. -/
def word : Switch → String
  | .verbose => "verbose"
  | .help => "help"
  | .version => "version"

/-- The letter of a switch, behind one dash. -/
def letter : Switch → Char
  | .verbose => 'v'
  | .help => 'h'
  | .version => 'V'

/-- The switch of a word. -/
def ofWord? (word : String) : Option Switch := all.find? (·.word == word)

/-- The switch of a letter. -/
def ofLetter? (letter : Char) : Option Switch := all.find? (·.letter == letter)

end Switch

end ApiModels.CommandLine
