import Eligibility.Arguments
import Eligibility.Characters
import Eligibility.Configuration
import Eligibility.Configuration.Format
import Eligibility.Configuration.Json
import Eligibility.Configuration.Storage
import Eligibility.Configuration.Toml
import Eligibility.Configuration.Yaml
import Eligibility.CriteriaError
import Eligibility.Cursor
import Eligibility.Directory
import Eligibility.Expression
import Eligibility.Expression.Compile
import Eligibility.Expression.Parser
import Eligibility.Expression.Printer
import Eligibility.Expression.ValueList
import Eligibility.FileTree
import Eligibility.Files
import Eligibility.Hexadecimal
import Eligibility.Json
import Eligibility.Json.Numbers
import Eligibility.Json.Parser
import Eligibility.Json.Printer
import Eligibility.Json.Strings
import Eligibility.Keyword
import Eligibility.Log
import Eligibility.Main
import Eligibility.ParseError
import Eligibility.Path
import Eligibility.Program
import Eligibility.Proofs.Actions
import Eligibility.Proofs.AddedSources
import Eligibility.Proofs.Agreement
import Eligibility.Proofs.Balance
import Eligibility.Proofs.ByteOrder
import Eligibility.Proofs.CanonicalTexts
import Eligibility.Proofs.Comparisons
import Eligibility.Proofs.Compilation
import Eligibility.Proofs.Configurations
import Eligibility.Proofs.Correspondence
import Eligibility.Proofs.CountedConnectives
import Eligibility.Proofs.CursorBounds
import Eligibility.Proofs.Demands
import Eligibility.Proofs.Edges
import Eligibility.Proofs.Encodings
import Eligibility.Proofs.ErrorPlaces
import Eligibility.Proofs.Escaping
import Eligibility.Proofs.Failures
import Eligibility.Proofs.FirstSymbols
import Eligibility.Proofs.Fragments
import Eligibility.Proofs.Grammar
import Eligibility.Proofs.Grouping
import Eligibility.Proofs.IndexedCursor
import Eligibility.Proofs.Inverse
import Eligibility.Proofs.InverseLaws
import Eligibility.Proofs.JsonLayouts
import Eligibility.Proofs.JsonSpellings
import Eligibility.Proofs.JsonTexts
import Eligibility.Proofs.LastSymbols
import Eligibility.Proofs.Layout
import Eligibility.Proofs.Levels
import Eligibility.Proofs.Literals
import Eligibility.Proofs.LocalErrors
import Eligibility.Proofs.Mapping
import Eligibility.Proofs.MixedConnectives
import Eligibility.Proofs.Nesting
import Eligibility.Proofs.Normalization
import Eligibility.Proofs.Outline
import Eligibility.Proofs.Parentheses
import Eligibility.Proofs.Parts
import Eligibility.Proofs.Passes
import Eligibility.Proofs.Pieces
import Eligibility.Proofs.Printing
import Eligibility.Proofs.Progress
import Eligibility.Proofs.Quoting
import Eligibility.Proofs.Reading
import Eligibility.Proofs.Recompilation
import Eligibility.Proofs.Regularity
import Eligibility.Proofs.Relocation
import Eligibility.Proofs.Rendering
import Eligibility.Proofs.Rereading
import Eligibility.Proofs.RoundTrip
import Eligibility.Proofs.Runs
import Eligibility.Proofs.Saving
import Eligibility.Proofs.ScanAgreement
import Eligibility.Proofs.Sessions
import Eligibility.Proofs.Soundness
import Eligibility.Proofs.SourceNames
import Eligibility.Proofs.SpelledTexts
import Eligibility.Proofs.Spelling
import Eligibility.Proofs.Stretches
import Eligibility.Proofs.TomlConfigurations
import Eligibility.Proofs.TomlStrings
import Eligibility.Proofs.TrailingBlanks
import Eligibility.Proofs.Transparency
import Eligibility.Proofs.Trimming
import Eligibility.Proofs.Variants
import Eligibility.Proofs.Warming
import Eligibility.Proofs.Warnings
import Eligibility.Proofs.WireFormat
import Eligibility.Proofs.YamlBlocks
import Eligibility.Proofs.YamlConfigurations
import Eligibility.Proofs.YamlEntries
import Eligibility.Proofs.YamlForms
import Eligibility.Proofs.YamlLexing
import Eligibility.Proofs.YamlScalars
import Eligibility.Resolver
import Eligibility.Resolver.Cache
import Eligibility.Resolver.Observed
import Eligibility.Resolver.Outage
import Eligibility.Scan
import Eligibility.Scan.Group
import Eligibility.Toml.Printer
import Eligibility.Toml.Statement
import Eligibility.Toml.Strings
import Eligibility.Toml.Token
import Eligibility.Tree
import Eligibility.Tree.Render
import Eligibility.Tree.Wire
import Eligibility.Yaml.Block
import Eligibility.Yaml.Characters
import Eligibility.Yaml.Lexer
import Eligibility.Yaml.Node
import Eligibility.Yaml.Printer
import Eligibility.Yaml.Resolution
import Eligibility.Yaml.Scalar
import Eligibility.Yaml.Token
