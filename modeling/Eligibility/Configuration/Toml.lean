import Eligibility.Configuration
import Eligibility.Toml.Printer
import Eligibility.Toml.Statement

/-!
# Configurations in TOML

The sources are the strings of the table `sources`. The table is given once: under its header, or as
an inline table, or by keys that start with `sources`; and each name stands in it once. Nothing else
may be in the document. It is written under its header, a line for each source.
-/

namespace Eligibility.Configuration

open Toml (Statement Value)

/-- How the table of sources has been given, with its names and ids so far. -/
inductive SourceTable where
  /-- Not yet. -/
  | absent
  /-- By keys that start with the name of the table. -/
  | dotted (pairs : List (String × String))
  /-- As an inline table. -/
  | inline (pairs : List (String × String))
  /-- Under its header; every further key belongs to it. -/
  | underHeader (pairs : List (String × String))

namespace SourceTable

/-- The names and ids. -/
def pairs : SourceTable → List (String × String)
  | absent => []
  | dotted pairs | inline pairs | underHeader pairs => pairs

/-- Some pairs with one more, whose name must be new. -/
def addPair? (pairs : List (String × String)) (name id : String) :
    Option (List (String × String)) :=
  if pairs.any fun (other, _) => other == name then none else some (pairs ++ [(name, id)])

/-- Some pairs with the entries of an inline table. -/
def addEntries? (pairs : List (String × String)) :
    List (List String × String) → Option (List (String × String))
  | [] => some pairs
  | ([name], id) :: entries =>
    match addPair? pairs name id with
    | some pairs => addEntries? pairs entries
    | none => none
  | _ :: _ => none

/-- Takes one more statement. -/
def step (t : SourceTable) (s : Statement) : Option SourceTable :=
  match t, s with
  | .absent, .header ["sources"] => some (.underHeader [])
  | .absent, .pair ["sources"] (.table entries) => (addEntries? [] entries).map .inline
  | .absent, .pair ["sources", name] (.string id) => some (.dotted [(name, id)])
  | .dotted pairs, .pair ["sources", name] (.string id) => (addPair? pairs name id).map .dotted
  | .underHeader pairs, .pair [name] (.string id) => (addPair? pairs name id).map .underHeader
  | _, _ => none

end SourceTable

/-- The configuration that statements give. -/
def ofStatements? (statements : List Statement) : Option Configuration :=
  (statements.foldlM SourceTable.step .absent).map fun t => ofPairs t.pairs

/-- Reads a TOML text. -/
def readToml (text : String) : Option Configuration := do
  let statements ← Toml.statements text
  ofStatements? statements

/-- The line of a source. -/
def tomlLine (name id : String) : List Char :=
  Toml.keyText name ++ ' ' :: '=' :: ' ' :: Toml.valueText id ++ ['\n']

/-- Writes a TOML text. -/
def writeToml (c : Configuration) : String :=
  String.ofList
    ("[sources]\n".toList ++ c.sources.entries.flatMap fun (name, id) => tomlLine name id)

end Eligibility.Configuration
