import Eligibility.Log

/-!
# Arguments of the program

The first argument names a command; options, flags and plain arguments follow in any order. An
option takes the next argument as its value, or what follows an equals sign. Two dashes end the
options: everything after them is a plain argument. Each option and flag may be given once, and a
value does not start with a dash, unless it is just that.
-/

namespace Eligibility

/-- The options of all commands that need a configuration. -/
structure CommonOptions where
  /-- The path of the configuration, if it is given. -/
  configuration : Option String
  /-- How much is logged. -/
  verbosity : Verbosity
deriving DecidableEq

/-- A command with its arguments. -/
inductive Command where
  /-- Compile an expression, which is given or read from the input. -/
  | compile (expression : Option String) (variant : Variant) (compact : Bool)
    (options : CommonOptions)
  /-- Render the tree in a file or in the input. -/
  | render (path : Option String) (options : CommonOptions)
  /-- Check an expression, which is given or read from the input. -/
  | check (expression : Option String) (strict : Bool) (options : CommonOptions)
  /-- Write a first configuration. -/
  | init (path : String)
  /-- Look at a configuration. -/
  | validate (options : CommonOptions)
  /-- Write a configuration from one file to another. -/
  | convert (input output : String)
deriving DecidableEq

/-- What the program is asked for. -/
inductive Request where
  /-- To run a command. -/
  | run (command : Command)
  /-- To tell its version. -/
  | version
  /-- To tell how it is used. -/
  | usage
deriving DecidableEq

namespace Arguments

/-- What a command accepts. -/
structure Signature where
  /-- The names of its flags. -/
  flags : List String
  /-- Whether it has the common options. -/
  hasOptions : Bool

/-- What has been given to a command. -/
structure Given where
  /-- The flags. -/
  flags : List String
  /-- The options with their values. -/
  options : List (String × String)
  /-- The plain arguments. -/
  plain : List String

namespace Given

/-- Nothing. -/
def nothing : Given := ⟨[], [], []⟩

/-- A flag more, which must not be there yet. -/
def addFlag (g : Given) (name : String) : Option Given :=
  if g.flags.contains name then none else some { g with flags := name :: g.flags }

/-- An option more, which must not be there yet. -/
def addOption (g : Given) (name value : String) : Option Given :=
  if (g.options.lookup name).isSome then none
  else some { g with options := (name, value) :: g.options }

/-- Plain arguments more. -/
def addPlain (g : Given) (arguments : List String) : Given :=
  { g with plain := g.plain ++ arguments }

end Given

/-- The name of the option for the path of the configuration. -/
def configOption : String := "config"

/-- The name of the option for the verbosity. -/
def logOption : String := "log-level"

/-- Whether an argument can be the value of an option. -/
def isValue (argument : String) : Bool := argument == "-" || argument.toList.head? != some '-'

/-- A name and what follows the first equals sign after it, if there is one. -/
def splitName (text : List Char) : String × Option String :=
  let name := String.ofList (text.takeWhile (· != '='))
  match text.dropWhile (· != '=') with
  | [] => (name, none)
  | _ :: value => (name, some (String.ofList value))

/-- The value that stands in the same argument as the letter of an option. -/
def attachedValue? (text : List Char) : Option String :=
  match text with
  | [] => none
  | '=' :: value => some (String.ofList value)
  | value => some (String.ofList value)

/-- What an argument is by itself. -/
inductive Item where
  /-- Two dashes. -/
  | endOfOptions
  /-- A request for help. -/
  | help
  /-- A flag. -/
  | flag (name : String)
  /-- An option, with its value if that is in the same argument. -/
  | option (name : String) (value : Option String)
  /-- A plain argument. -/
  | plain
  /-- Something that is not accepted. -/
  | unknown
deriving DecidableEq

/-- What an argument is for a command. -/
def classify (s : Signature) (argument : String) : Item :=
  match argument.toList with
  | ['-', '-'] => .endOfOptions
  | '-' :: '-' :: text =>
    let (name, value) := splitName text
    if s.hasOptions && (name == configOption || name == logOption) then .option name value
    else if value.isSome then .unknown
    else if name = "help" then .help
    else if s.flags.contains name then .flag name
    else .unknown
  | '-' :: letter :: text =>
    if letter = 'c' && s.hasOptions then .option configOption (attachedValue? text)
    else if letter = 'h' then .help
    else .unknown
  | _ => .plain

/-- Gathers what is given to a command; nothing if help is asked for on the way. -/
def gather (s : Signature) (g : Given) : List String → Option (Option Given)
  | [] => some (some g)
  | argument :: arguments =>
    match classify s argument with
    | .endOfOptions => some (some (g.addPlain arguments))
    | .help => some none
    | .flag name =>
      match g.addFlag name with
      | some g => gather s g arguments
      | none => none
    | .option name (some value) =>
      match g.addOption name value with
      | some g => gather s g arguments
      | none => none
    | .option name none =>
      match arguments with
      | value :: arguments =>
        if isValue value then
          match g.addOption name value with
          | some g => gather s g arguments
          | none => none
        else none
      | [] => none
    | .plain => gather s (g.addPlain [argument]) arguments
    | .unknown => none

/-- The common options. -/
def Given.common? (g : Given) : Option CommonOptions := do
  let verbosity ← match g.options.lookup logOption with
    | some name => Verbosity.ofName? name
    | none => some none
  return { configuration := g.options.lookup configOption, verbosity }

/-- The plain argument, of which there must not be more than one. -/
def Given.single? (g : Given) : Option (Option String) :=
  match g.plain with
  | [] => some none
  | [argument] => some (some argument)
  | _ => none

/-- Makes a command of what is given to it. -/
def commandOf? (name : String) (g : Given) : Option Command := do
  match name with
  | "compile" =>
    let variant := if g.flags.contains "dimension" then Variant.dimension else Variant.role
    return .compile (← g.single?) variant (g.flags.contains "compact") (← g.common?)
  | "render" => return .render (← g.single?) (← g.common?)
  | "check" => return .check (← g.single?) (g.flags.contains "strict") (← g.common?)
  | "init" => return .init ((← g.single?).getD "criteria.yml")
  | "validate" => if g.plain.isEmpty then return .validate (← g.common?) else none
  | "convert" =>
    match g.plain with
    | [input, output] => return .convert input output
    | _ => none
  | _ => none

/-- What a command accepts. -/
def signature? (name : String) : Option Signature :=
  match name with
  | "compile" => some ⟨["dimension", "compact"], true⟩
  | "render" => some ⟨[], true⟩
  | "check" => some ⟨["strict"], true⟩
  | "init" => some ⟨[], false⟩
  | "validate" => some ⟨[], true⟩
  | "convert" => some ⟨[], false⟩
  | _ => none

/-- Whether an argument is the letter of a flag, which other letters may follow. -/
def startsWithLetter (letter : Char) (argument : String) : Bool :=
  argument.toList.take 2 == ['-', letter]

/-- What help is asked for: about the program or about one of its commands. -/
def helpRequest? : List String → Option Request
  | [] => some .usage
  | [name] => if (signature? name).isSome || name == "help" then some .usage else none
  | _ => none

/-- What the program is asked for, if its arguments are right. -/
def parse : List String → Option Request
  | [] => none
  | name :: arguments =>
    match signature? name with
    | some s => do
      match ← gather s .nothing arguments with
      | some given => return .run (← commandOf? name given)
      | none => return .usage
    | none =>
      if name = "help" then helpRequest? arguments
      else if name = "--version" || startsWithLetter 'V' name then some .version
      else if name = "--help" || startsWithLetter 'h' name then some .usage
      else none

end Arguments

end Eligibility
