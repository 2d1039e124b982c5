import Eligibility.Configuration
import Eligibility.Json.Parser
import Eligibility.Json.Printer

/-!
# Configurations in JSON

A configuration is an object whose only member, `sources`, maps names to ids; the member may be
missing. The fields of the configuration may also be listed in an array.
-/

namespace Eligibility.Configuration

/-- The names and ids that the members of an object map to each other. -/
def pairsOfMembers? : List (Option String × Json) → Option (List (String × String))
  | [] => some []
  | (some name, .string (some id)) :: members =>
    (pairsOfMembers? members).map ((name, id) :: ·)
  | _ => none

/-- The configuration with the sources of a JSON value. -/
def ofJsonSources? : Json → Option Configuration
  | .object members => (pairsOfMembers? members).map ofPairs
  | _ => none

/-- The configuration that a JSON value states. -/
def ofJson? : Json → Option Configuration
  | .object [] => some empty
  | .object [(some "sources", sources)] => ofJsonSources? sources
  | .array [] => some empty
  | .array [sources] => ofJsonSources? sources
  | _ => none

/-- The JSON value that states a configuration. -/
def toJson (c : Configuration) : Json :=
  .object [(some "sources",
    .object (c.sources.entries.map fun (name, id) => (some name, .string (some id))))]

/-- Reads a JSON text. -/
def readJson (text : String) : Option Configuration := do
  let value ← Json.parse text
  ofJson? value

/-- Writes a JSON text. -/
def writeJson (c : Configuration) : String := c.toJson.pretty

end Eligibility.Configuration
