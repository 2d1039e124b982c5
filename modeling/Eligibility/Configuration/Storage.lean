import Eligibility.Configuration.Format
import Eligibility.Files
import Eligibility.Path

/-!
# Configuration files

A configuration is loaded from the file at a given path, or else from the first of four files in a
directory that is there; without such a file it is empty. Saving replaces the file at a path.

An error says in its context what was being done, and with which file.
-/

namespace Eligibility.Configuration

/-- Why a configuration is not loaded or saved. -/
inductive StorageError where
  /-- The file at the path cannot be read. -/
  | reading (path : String) (cause : FileError)
  /-- The file at the path is not in its format, or does not state a configuration. -/
  | malformed (format : Format) (path : String)
  /-- Files with the extension have no format. -/
  | unsupportedExtension (extension : String)
  /-- The file at the path cannot be written. -/
  | writing (path : String) (cause : FileError)
  /-- The file at the path cannot be written with the first configuration. -/
  | writingDefault (path : String) (cause : FileError)
deriving DecidableEq

namespace StorageError

/-- What was being done when an error arose. -/
def context : StorageError → List String
  | reading path _ => [s!"reading criteria configuration from {path}"]
  | malformed format path => [s!"parsing {format.name} configuration from {path}"]
  | unsupportedExtension _ => []
  | writing path _ => [s!"writing configuration to {path}"]
  | writingDefault path _ => [s!"writing default configuration to {path}"]

/-- The text that reports an error. -/
def message : StorageError → String
  | reading _ cause | writing _ cause | writingDefault _ cause => cause.message
  | malformed format _ => s!"invalid {format.name} configuration"
  | unsupportedExtension extension => s!"unsupported configuration file extension: {extension}"

end StorageError

variable {m : Type → Type} [Monad m]

/-- A computation that handles configuration files. -/
abbrev Storage (m : Type → Type) (α : Type) := ExceptT StorageError m α

/-- A computation whose result is known. -/
def decided {α : Type} (result : Except StorageError α) : Storage m α := ExceptT.mk (pure result)

/-- The format of the file at a path. -/
def formatOf (path : String) : Except StorageError Format :=
  match Format.ofExtension? (Path.extension path) with
  | some format => .ok format
  | none => .error (.unsupportedExtension (Path.extension path))

/-- The configuration that the text of the file at a path states. -/
def ofText (path text : String) : Except StorageError Configuration :=
  match formatOf path with
  | .error e => .error e
  | .ok format =>
    match format.read text with
    | some c => .ok c
    | none => .error (.malformed format path)

/-- The text of a configuration for the file at a path. -/
def toText (path : String) (c : Configuration) : Except StorageError String :=
  match formatOf path with
  | .error e => .error e
  | .ok format => .ok (format.write c)

/-- The names of the files that are looked for, in order. -/
def candidates : List String :=
  ["criteria.toml", "criteria.yml", "criteria.yaml", "criteria.json"]

/-- The first of some files that is there, with its text. -/
def firstFile (files : FileAccess m) : List String → Storage m (Option (String × String))
  | [] => return none
  | path :: paths => do
    match ← files.read path with
    | .ok text => return some (path, text)
    | .error .notFound => firstFile files paths
    | .error e => throw (.reading path e)

/-- Loads the configuration at a path. -/
def loadFile (files : FileAccess m) (path : String) : Storage m Configuration := do
  match ← files.read path with
  | .ok text => decided (ofText path text)
  | .error e => throw (.reading path e)

/-- Loads the configuration of a directory. -/
def loadDirectory (files : FileAccess m) (base : String) : Storage m Configuration := do
  match ← firstFile files (candidates.map (Path.join base)) with
  | none => return empty
  | some (path, text) => decided (ofText path text)

/-- Loads the configuration at a path, or else that of a directory. -/
def load (files : FileAccess m) (base : String) (path : Option String) : Storage m Configuration :=
  match path with
  | some path => loadFile files path
  | none => loadDirectory files base

/-- Writes the file at a path. -/
def writeFile (files : FileAccess m) (error : FileError → StorageError) (path text : String) :
    Storage m Unit := do
  match ← files.write path text with
  | .ok () => return ()
  | .error e => throw (error e)

/-- Saves a configuration to a path. -/
def save (files : FileAccess m) (path : String) (c : Configuration) : Storage m Unit := do
  let text ← decided (toText path c)
  writeFile files (.writing path) path text

/-- The lines of a first configuration, with an explanation. -/
def defaultYaml : String := "\n".intercalate
  ["# Configuration for the `criteria` tool.",
    "#",
    "# The tool looks for criteria.toml, criteria.yml, criteria.yaml, or criteria.json in the",
    "# current directory unless --config is given.",
    "",
    "# Maps each source display name, as written in expressions, to the platform's source id.",
    "# Compiling resolves names to ids through this table and rendering resolves ids back to names,",
    "# so every id should appear only once.",
    "#",
    "# sources:",
    "#   Active Directory: 2c9180835d2e5168015d32f890ca1581",
    "#   Workday: 2c918086749d78830174a1a40e121518",
    "sources: \x7b\x7d",
    ""]

/-- Saves a first configuration to a path. It has no sources, and in YAML an explanation. -/
def saveDefault (files : FileAccess m) (path : String) : Storage m Unit :=
  match formatOf path with
  | .ok .yaml => writeFile files (.writingDefault path) path defaultYaml
  | _ => save files path empty

end Eligibility.Configuration
