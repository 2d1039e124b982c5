import Eligibility.Expression.Printer
import Eligibility.ParseError
import Eligibility.Resolver

/-!
# Errors between rules and criteria trees

Why a rule cannot be stated as a criteria tree, or a tree as a rule: the text is no rule, the shape
is not supported on the other side, or a source cannot be resolved.
-/

namespace Eligibility

/-- The deepest nesting of connectives that three tiers can state. -/
def maxDepth : Nat := 2

/-- A shape that one side has and the other cannot state. -/
inductive ShapeError where
  /-- The rule nests connectives so many levels deep. -/
  | tooDeep (depth : Nat)
  /-- A group of the rule holds this group. -/
  | nestedGroup (inner : Expression)
  /-- The comparison has a list where only a single value is allowed. -/
  | listInDimension (comparison : Comparison)
  /-- A group of the tree has no leaves. -/
  | emptyGroup
  /-- The leaf with this property needs a source and has none. -/
  | missingSourceId (property : String)
  /-- The leaf with this property has a list without values. -/
  | emptyValues (property : String)
deriving DecidableEq

/-- The text that reports a shape. -/
def ShapeError.message : ShapeError → String
  | tooDeep depth => s!"expression nests {depth} logical levels, at most {maxDepth} are supported"
  | nestedGroup inner => "group '" ++ inner.text ++ "' is nested too deeply"
  | listInDimension comparison =>
    "dimension criteria take a single value, found a list in '" ++ comparison.text ++ "'"
  | emptyGroup => "group without predicates"
  | missingSourceId property => s!"'{property}' has no source id"
  | emptyValues property => s!"'{property}' has an empty value list"

/-- Why a rule or a tree is not turned into the other. -/
inductive CriteriaError where
  /-- The text is not a rule. -/
  | parse (error : ParseError)
  /-- The shape cannot be stated. -/
  | shape (error : ShapeError)
  /-- A source cannot be resolved. -/
  | resolution (name : String) (cause : LookupError)
deriving DecidableEq

/-- The text that reports an error. The cause of a failed resolution has a text of its own. -/
def CriteriaError.message : CriteriaError → String
  | parse error => error.message
  | shape error => "unsupported criteria shape: " ++ error.message
  | resolution name _ => s!"unable to resolve '{name}'"

/-- A computation that asks a resolver and may fail. -/
abbrev Criteria (σ α : Type) := EStateM CriteriaError σ α

/-- Asks a resolver, and says what was asked for if it fails. -/
def Resolver.ask {σ : Type} (resolver : Resolver σ) (name : String) : Criteria σ String :=
  EStateM.adaptExcept (CriteriaError.resolution name) (resolver name)

end Eligibility
