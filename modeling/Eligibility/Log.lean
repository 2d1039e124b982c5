import Eligibility.Configuration
import Eligibility.Expression.Compile

/-!
# Log

While a command runs it reports events, from warnings down to each question that a cache is asked.
How much of that is shown, and whether the part of the program it comes from is shown too, depends
on the verbosity. An event takes one line, unless its message has several; further lines are
indented.
-/

namespace Eligibility

/-- How grave an event is. -/
inductive Severity where
  /-- Something failed. -/
  | error
  /-- Something should be looked at. -/
  | warn
  /-- Something was done. -/
  | info
  /-- How something was done. -/
  | debug
  /-- The same in every detail. -/
  | trace
deriving DecidableEq

namespace Severity

/-- The word for a severity. -/
def word : Severity → String
  | error => "ERROR"
  | warn => "WARN"
  | info => "INFO"
  | debug => "DEBUG"
  | trace => "TRACE"

/-- The place among the severities, the gravest first. -/
def rank : Severity → Nat
  | error => 1
  | warn => 2
  | info => 3
  | debug => 4
  | trace => 5

end Severity

/-- How much is shown: nothing, or all events that are not less grave than a limit. -/
abbrev Verbosity := Option Severity

namespace Verbosity

/-- The verbosity of a name. -/
def ofName? (name : String) : Option Verbosity :=
  if name = "none" then some none
  else if name = "error" then some (some .error)
  else if name = "warn" then some (some .warn)
  else if name = "info" then some (some .info)
  else if name = "debug" then some (some .debug)
  else if name = "trace" then some (some .trace)
  else none

/-- Whether events of a severity are shown. -/
def shows (v : Verbosity) (s : Severity) : Bool := v.any fun limit => s.rank ≤ limit.rank

/-- Whether the part of the program is shown that an event comes from. -/
def showsTopic (v : Verbosity) : Bool := v.shows .debug

end Verbosity

/-- An event. -/
inductive Event where
  /-- A configuration was loaded, from a given path or from where one was found, with so many
  sources. -/
  | loaded (path : Option String) (sources : Nat)
  /-- An entry of the configuration makes trouble. -/
  | suspicious (warning : Warning)
  /-- A text of so many bytes was read as an expression of some depth. -/
  | parsed (bytes depth : Nat)
  /-- So many names are looked up in advance. -/
  | warming (names : Nat)
  /-- A name is known to the cache. -/
  | cacheHit (name : String)
  /-- A name is not known to the cache. -/
  | cacheMiss (name : String)
  /-- An expression is compiled. -/
  | compiling (variant : Variant) (e : Expression)
  /-- A tree without groups is rendered. -/
  | noGroups
deriving DecidableEq

namespace Event

/-- How grave an event is. -/
def severity : Event → Severity
  | loaded _ _ => .info
  | suspicious _ => .warn
  | parsed _ _ => .trace
  | warming _ | cacheHit _ | cacheMiss _ | compiling _ _ | noGroups => .debug

/-- The part of the program that an event comes from. -/
def topic : Event → String
  | loaded _ _ | suspicious _ => "cli"
  | parsed _ _ => "parser"
  | warming _ | cacheHit _ | cacheMiss _ => "resolver"
  | compiling _ _ => "compiler"
  | noGroups => "renderer"

/-- What is compiled. -/
def shapeText : Expression → String
  | .comparison _ => "single comparison"
  | .logical op children =>
    if (Expression.logical op children).depth = 1 then
      s!"one '{op.keyword}' level of {children.length} comparisons"
    else s!"two levels joined by '{op.keyword}' ({children.length} groups)"

/-- The message of an event. -/
def message : Event → String
  | loaded (some path) sources => s!"Loaded configuration from {path} with {sources} source(s)"
  | loaded none sources => s!"Using configuration with {sources} source(s)"
  | suspicious warning => warning.message
  | parsed bytes depth => s!"Parsed {bytes} byte expression with {depth} logical level(s)"
  | warming names => s!"Warming cache with {names} name(s)"
  | cacheHit name => s!"Cache hit for '{name}'"
  | cacheMiss name => s!"Cache miss for '{name}'"
  | compiling variant e => s!"Compiling {shapeText e} into {variant.word} criteria"
  | noGroups => "Criteria tree has no groups, rendering empty text"

/-- A text with blanks before it, so that it takes up a width. -/
def alignedRight (width : Nat) (text : String) : String :=
  String.ofList (List.replicate (width - text.length) ' ') ++ text

/-- A text with blanks after it, so that it takes up a width. -/
def alignedLeft (width : Nat) (text : String) : String :=
  text ++ String.ofList (List.replicate (width - text.length) ' ')

/-- A message whose further lines are indented. -/
def indented (message : String) : String :=
  String.ofList (message.toList.flatMap fun c =>
    if c = '\n' then ['\n', ' ', ' ', ' ', ' '] else [c])

/-- The line of an event. -/
def line (v : Verbosity) (e : Event) : String :=
  let topic := if v.showsTopic then " " ++ alignedRight 10 e.topic else ""
  "[" ++ alignedLeft 5 e.severity.word ++ topic ++ "] " ++ indented e.message

end Event

end Eligibility
