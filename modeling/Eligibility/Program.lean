import Eligibility.Arguments
import Eligibility.Configuration.Storage
import Eligibility.Resolver.Observed
import Eligibility.Tree.Render
import Eligibility.Tree.Wire

/-!
# Commands

What the commands of the program do. A command reads files and its input, and writes lines to its
output and to its error output; either it succeeds or it fails with an error. An error tells in its
context what was being done.

Every command that handles rules loads the configuration first. `compile` makes all sources of a
rule known to a cache before it compiles, so that a rule with an unknown source is refused whatever
its shape is; `check` only reports such sources, unless it is strict.
-/

namespace Eligibility

/-- Why a command fails. -/
inductive CommandError where
  /-- The configuration cannot be loaded or saved. -/
  | storage (error : Configuration.StorageError)
  /-- The input cannot be read; what was wanted from it is said. -/
  | reading (what : String) (error : FileError)
  /-- The text is no rule. -/
  | parsing (error : ParseError)
  /-- A source cannot be resolved. -/
  | resolving (error : LookupError)
  /-- The rule cannot be compiled. -/
  | compiling (variant : Variant) (error : CriteriaError)
  /-- The text is no criteria tree. -/
  | invalidTree
  /-- The tree cannot be rendered. -/
  | rendering (error : CriteriaError)
  /-- So many sources are not in the configuration. -/
  | unknownSources (count : Nat)
deriving DecidableEq

namespace CommandError

/-- What was being done when an error arose. -/
def context : CommandError → List String
  | storage error => error.context
  | reading what _ => [s!"reading {what}"]
  | parsing _ => ["parsing criteria expression"]
  | resolving _ => ["resolving source names"]
  | compiling variant _ => [s!"compiling {variant.word} criteria"]
  | invalidTree => ["parsing criteria tree JSON"]
  | rendering _ => ["rendering criteria tree"]
  | unknownSources _ => []

/-- The text that reports an error. -/
def message : CommandError → String
  | storage error => error.message
  | reading _ error => error.message
  | parsing error => error.message
  | resolving error => error.message
  | compiling _ error => error.message
  | invalidTree => "invalid criteria tree"
  | rendering error => error.message
  | unknownSources count => s!"{count} unknown source(s)"

end CommandError

/-! ## Output -/

/-- What a command has written. -/
structure Transcript where
  /-- Its output. -/
  output : String
  /-- Its error output. -/
  errors : String
deriving DecidableEq

/-- The transcript before a command. -/
def Transcript.empty : Transcript := ⟨"", ""⟩

/-- The files and the input of a command. -/
structure Host (m : Type → Type) where
  /-- The files. -/
  files : FileAccess m
  /-- The text of the input. -/
  input : m (Except FileError String)

/-- The steps of a command. -/
abbrev Action (m : Type → Type) := ExceptT CommandError (StateT Transcript m)

namespace Command

variable {m : Type → Type} [Monad m]

/-- Writes a line to the output. -/
def print (line : String) : Action m Unit :=
  modify fun t => { t with output := t.output ++ line ++ "\n" }

/-- Writes a line to the error output. -/
def printError (line : String) : Action m Unit :=
  modify fun t => { t with errors := t.errors ++ line ++ "\n" }

/-- Writes lines to the error output. -/
def printErrors : List String → Action m Unit
  | [] => return ()
  | line :: lines => do
    printError line
    printErrors lines

/-- Shows events in the log. -/
def log (v : Verbosity) (events : List Event) : Action m Unit :=
  printErrors ((events.filter fun e => v.shows e.severity).map (Event.line v))

/-- Handles configuration files. -/
def handle {α : Type} (x : Configuration.Storage m α) : Action m α := do
  match ← (x.run : m _) with
  | .ok a => return a
  | .error e => throw (.storage e)

/-- Reads the input. -/
def readInput (host : Host m) (what : String) : Action m String := do
  match ← (host.input : m _) with
  | .ok text => return text
  | .error e => throw (.reading what e)

/-- Reads the file at a path. -/
def readFile (host : Host m) (path : String) : Action m String := do
  match ← (host.files.read path : m _) with
  | .ok text => return text
  | .error e => throw (.reading path e)

/-- Loads the configuration and reports what is suspicious about it. -/
def configuration (host : Host m) (options : CommonOptions) : Action m Configuration := do
  let c ← handle (Configuration.load host.files "." options.configuration)
  log options.verbosity
    (.loaded options.configuration c.sources.size :: c.warnings.map .suspicious)
  return c

/-- The text of an expression without the whitespace around it; it is read from the input unless it
is given. -/
def expressionText (host : Host m) (given : Option String) : Action m String := do
  match given with
  | some text => return trim text
  | none => return trim (← readInput host "expression from stdin")

/-- Reads an expression. -/
def expression (host : Host m) (v : Verbosity) (given : Option String) : Action m Expression := do
  let text ← expressionText host given
  match Expression.parse text with
  | .ok e =>
    log v [.parsed (byteLength text.toList) e.depth]
    return e
  | .error e => throw (.parsing e)

/-- Runs what asks an observed cache, and shows its reports. -/
def observing {ε α : Type} (v : Verbosity) (error : ε → CommandError)
    (x : EStateM ε (Observed Unit) α) (s : Observed Unit) : Action m (α × Observed Unit) :=
  match x { s with events := [] } with
  | .ok a t => do
    log v t.events
    return (a, t)
  | .error e t => do
    log v t.events
    throw (error e)

/-- Shows lines about what is suspicious in a configuration. -/
def printWarnings (warnings : List Warning) : Action m Unit :=
  if warnings.isEmpty then return ()
  else do
    printError "Configuration validation warnings:"
    printErrors (warnings.map fun w => "   " ++ w.message)
    printError ""

/-- Compiles an expression and prints its tree. -/
def runCompile (host : Host m) (given : Option String) (variant : Variant) (compact : Bool)
    (options : CommonOptions) : Action m Unit := do
  let c ← configuration host options
  let e ← expression host options.verbosity given
  let resolver := Resolver.observed c.sources.resolver
  let (_, s) ← observing options.verbosity .resolving (resolver.warmObserved e.sourceNames)
    (Observed.fresh ())
  if e.depth ≤ maxDepth then log options.verbosity [.compiling variant e]
  let (t, _) ← observing options.verbosity (.compiling variant) (e.compile resolver variant) s
  print (if compact then t.compact else t.pretty)

/-- Renders a tree and prints its rule. -/
def runRender (host : Host m) (path : Option String) (options : CommonOptions) :
    Action m Unit := do
  let c ← configuration host options
  let text ← match path with
    | some path => readFile host path
    | none => readInput host "stdin"
  match Tree.parse? text with
  | none => throw .invalidTree
  | some t =>
    if t.groups.isEmpty then log options.verbosity [.noGroups]
    let resolver := Resolver.observed c.sources.inverse.resolver
    let (rule, _) ← observing options.verbosity .rendering (t.render resolver) (Observed.fresh ())
    print rule

/-- The sources of an expression that are not in a configuration. -/
def unknownSources (c : Configuration) (e : Expression) : List String :=
  e.sourceNames.filter fun name => !c.sources.contains name

/-- Prints the canonical text of an expression, and reports unknown sources. -/
def runCheck (host : Host m) (given : Option String) (strict : Bool) (options : CommonOptions) :
    Action m Unit := do
  let c ← configuration host options
  let e ← expression host options.verbosity given
  print e.text
  let unknown := unknownSources c e
  printErrors (unknown.map fun name => s!"Source '{name}' is not in the configuration")
  if strict && !unknown.isEmpty then throw (.unknownSources unknown.length)

/-- Writes a first configuration. -/
def runInit (host : Host m) (path : String) : Action m Unit := do
  handle (Configuration.saveDefault host.files path)
  print s!"Generated default configuration file: {path}"

/-- Looks at a configuration. -/
def runValidate (host : Host m) (options : CommonOptions) : Action m Unit := do
  let c ← configuration host options
  print "Configuration validation successful"
  match options.configuration with
  | some path => print s!"Config file: {path}"
  | none => pure ()
  print s!"Sources: {c.sources.size}"
  printWarnings c.warnings

/-- Writes a configuration from one file to another. -/
def runConvert (host : Host m) (input output : String) : Action m Unit := do
  let c ← handle (Configuration.load host.files "." (some input))
  printWarnings c.warnings
  handle (Configuration.save host.files output c)
  print s!"Converted {input} to {output}"

/-- The steps of a command. -/
def steps (host : Host m) : Command → Action m Unit
  | compile given variant compact options => runCompile host given variant compact options
  | render path options => runRender host path options
  | check given strict options => runCheck host given strict options
  | init path => runInit host path
  | validate options => runValidate host options
  | convert input output => runConvert host input output

/-- Runs a command: whether it succeeds, and what it writes. -/
def run (host : Host m) (c : Command) : m (Except CommandError Unit × Transcript) :=
  (c.steps host).run.run .empty

end Command

namespace Program

/-- The name of the program and its version. -/
def version : String := "criteria 0.1.0"

/-- How the program is used. -/
def usage : String := "\n".intercalate
  ["Usage: criteria <COMMAND>",
    "",
    "  compile [EXPRESSION] [--dimension] [--compact]   compile an expression into a criteria tree",
    "  render [PATH]                                    render a criteria tree as an expression",
    "  check [EXPRESSION] [--strict]                    print the canonical form of an expression",
    "  init [PATH]                                      generate a default configuration file",
    "  validate                                         validate a configuration file",
    "  convert <INPUT> <OUTPUT>                         convert a configuration file",
    "",
    "  -c, --config <PATH>      configuration file",
    "      --log-level <LEVEL>  none, error, warn, info, debug, trace"]

end Program

end Eligibility
