import Eligibility.Characters
import Eligibility.Expression

/-!
# The text of an expression

`Expression.text` writes an expression in its canonical spelling: keywords in lower case, sources
and values between single quotes, a property only where it has to be, one blank around operators
and connectives, and parentheses around every nested connective and nothing else.
-/

namespace Eligibility

/-- A property name: bare if it can be read back as one token, else between quotes. -/
def propertyText (property : String) : String :=
  if property.toList.isEmpty || property.toList.any fun c => isDelimiter c || isQuote c then
    quoted property
  else property

/-- An attribute, from the outside in. -/
def Attribute.text (a : Attribute) : String :=
  match a.scope with
  | .identity => "identity." ++ propertyText a.property
  | .account source => quoted source ++ ".attribute." ++ propertyText a.property
  | .entitlement source => quoted source ++ ".entitlement." ++ propertyText a.property

/-- A value, or a list of values in parentheses. -/
def Literal.text : Literal → String
  | .single value => quoted value
  | .list values => "(" ++ ",".intercalate (values.map quoted) ++ ")"

/-- A comparison. -/
def Comparison.text (c : Comparison) : String :=
  c.subject.text ++ " " ++ c.operator.keyword ++ " " ++ c.value.text

/-- The connective with a blank on both sides. -/
def Connective.separator (op : Connective) : String := " " ++ op.keyword ++ " "

mutual

/-- The canonical spelling of an expression. -/
def Expression.text : Expression → String
  | .comparison c => c.text
  | .logical op children => op.separator.intercalate (operandTexts children)

/-- The spellings of expressions as parts of a larger one. -/
def Expression.operandTexts : List Expression → List String
  | [] => []
  | e :: es => e.operandText :: operandTexts es

/-- The spelling of an expression as part of a larger one. -/
def Expression.operandText : Expression → String
  | .comparison c => c.text
  | .logical op children => "(" ++ op.separator.intercalate (operandTexts children) ++ ")"

end

end Eligibility
