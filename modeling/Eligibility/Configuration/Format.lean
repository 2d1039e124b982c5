import Eligibility.Configuration.Json
import Eligibility.Configuration.Toml
import Eligibility.Configuration.Yaml

/-!
# Formats of configuration files

A configuration file is in one of three formats, which the extension of its name tells. The case of
an extension matters.
-/

namespace Eligibility

/-- A format of configuration files. -/
inductive Format where
  /-- TOML. -/
  | toml
  /-- YAML. -/
  | yaml
  /-- JSON. -/
  | json
deriving DecidableEq

namespace Format

/-- The name of a format. -/
def name : Format → String
  | toml => "TOML"
  | yaml => "YAML"
  | json => "JSON"

/-- The format of files with an extension. -/
def ofExtension? (extension : String) : Option Format :=
  if extension = "toml" then some toml
  else if extension = "yml" || extension = "yaml" then some yaml
  else if extension = "json" then some json
  else none

/-- Reads a text in a format. -/
def read (format : Format) (text : String) : Option Configuration :=
  match format with
  | toml => Configuration.readToml text
  | yaml => Configuration.readYaml text
  | json => Configuration.readJson text

/-- Writes a text in a format. -/
def write (format : Format) (c : Configuration) : String :=
  match format with
  | toml => c.writeToml
  | yaml => c.writeYaml
  | json => c.writeJson

end Format

end Eligibility
