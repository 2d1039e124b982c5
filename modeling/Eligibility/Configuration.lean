import Eligibility.Characters
import Eligibility.Directory

/-!
# Configurations

A configuration gives the sources that rules may name, with the ids that stand for them in criteria
trees. Every table of sources is a configuration, but some make trouble later: a blank name or id
is hardly meant, and of several names for one id only the smallest is ever written in a rule. Such
entries are reported as warnings.
-/

namespace Eligibility

/-- What a configuration file states. -/
structure Configuration where
  /-- The ids of the sources, by name. -/
  sources : Directory
deriving DecidableEq

/-- An entry of a configuration that makes trouble. -/
inductive Warning where
  /-- The id belongs to a blank name. -/
  | blankName (id : String)
  /-- The name has a blank id. -/
  | blankId (name : String)
  /-- The id belongs to several names, which are given in ascending order. -/
  | sharedId (id : String) (names : List String)
deriving DecidableEq

/-- The text of a warning. -/
def Warning.message : Warning → String
  | blankName id => s!"source id '{id}' is mapped from a blank name"
  | blankId name => s!"source '{name}' has a blank id"
  | sharedId id names =>
    let listed := ", ".intercalate (names.map fun name => s!"'{name}'")
    let winner := names.headD ""
    s!"source id '{id}' is shared by {listed}, rendering will always use '{winner}'"

namespace Configuration

/-- The configuration without sources. -/
def empty : Configuration := ⟨Directory.empty⟩

/-- The configuration with the given names and ids; of equal names the last counts. -/
def ofPairs (pairs : List (String × String)) : Configuration := ⟨Directory.ofPairs pairs⟩

/-- The names that have an id, in ascending order. -/
def namesOf (c : Configuration) (id : String) : List String :=
  (c.sources.entries.filter fun (_, other) => other == id).map Prod.fst

/-- The warnings about one name and its id. -/
def entryWarnings (name id : String) : List Warning :=
  (if isBlankText name then [.blankName id] else []) ++
    (if isBlankText id then [.blankId name] else [])

/-- The warning about an id that belongs to several names, unless the id is blank. -/
def sharingWarnings (c : Configuration) (id : String) : List Warning :=
  if isBlankText id || (c.namesOf id).length < 2 then [] else [.sharedId id (c.namesOf id)]

/-- The ids, each once and in ascending order. -/
def ids (c : Configuration) : List String := c.sources.inverse.entries.map Prod.fst

/-- What should be reported about a configuration: first its names in order, then its ids. -/
def warnings (c : Configuration) : List Warning :=
  (c.sources.entries.flatMap fun (name, id) => entryWarnings name id) ++
    c.ids.flatMap c.sharingWarnings

end Configuration

end Eligibility
