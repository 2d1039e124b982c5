import Eligibility.Configuration
import Eligibility.Yaml.Node
import Eligibility.Yaml.Printer

/-!
# Configurations in YAML

A configuration is a mapping whose only key, `sources`, has a mapping of names to ids; the key may
be missing, and both mappings may be left out. A plain scalar is taken for the text that it is, even
if it looks like a number. What is written is a block mapping with a line or more for each source.
-/

namespace Eligibility.Configuration

open Yaml (Anchors Node)

/-- The names and ids that the entries of a mapping map to each other. -/
def pairsOfEntries? (anchors : Anchors) : List (Node × Node) → Option (List (String × String))
  | [] => some []
  | (name, id) :: entries => do
    let name ← name.text? anchors
    let id ← id.text? anchors
    let pairs ← pairsOfEntries? anchors entries
    return (name, id) :: pairs

/-- The configuration with the sources of a node. -/
def ofSourcesNode? (anchors : Anchors) : Node → Option Configuration
  | .scalar true "" => some empty
  | .mapping entries => (pairsOfEntries? anchors entries).map ofPairs
  | _ => none

/-- The configuration that the root of a document states. -/
def ofNode? (anchors : Anchors) : Node → Option Configuration
  | .scalar true "" => some empty
  | .mapping [] => some empty
  | .mapping [(key, sources)] =>
    if key.text? anchors = some "sources" then ofSourcesNode? anchors sources else none
  | _ => none

/-- Reads a YAML text. -/
def readYaml (text : String) : Option Configuration :=
  match Yaml.document text with
  | none => none
  | some (none, _) => some empty
  | some (some root, anchors) => ofNode? anchors root

/-- Writes a YAML text. -/
def writeYaml (c : Configuration) : String :=
  if c.sources.isEmpty then "sources: \x7b\x7d\n"
  else
    String.ofList
      ("sources:\n".toList ++ c.sources.entries.flatMap fun (name, id) => Yaml.entryText name id)

end Eligibility.Configuration
