/-!
# Keywords and wire names

The rule language has two kinds of keywords: the two connectives that join rules, and the eleven
operators that compare an attribute with a value. Criteria trees speak of the same things with
upper-case wire names: a connective keeps its meaning there, and an operator becomes one of ten
predicates, because membership in a list of values is spelled as equality.

Keywords are read without regard to the case of ASCII letters and written in lower case; wire names
are read and written exactly.
-/

namespace Eligibility

/-- Whether two words agree when the case of ASCII letters is ignored. -/
def sameWord (a b : String) : Bool :=
  a.toList.map Char.toLower == b.toList.map Char.toLower

/-- A Boolean connective: it joins the parts of a rule, and the nodes of a criteria tree. -/
inductive Connective where
  /-- All parts hold. -/
  | and
  /-- Some part holds. -/
  | or
deriving DecidableEq

namespace Connective

/-- Both connectives. -/
def all : List Connective := [and, or]

/-- The keyword in rule texts. -/
def keyword : Connective → String
  | and => "and"
  | or => "or"

/-- The name in criteria trees. -/
def wireName : Connective → String
  | and => "AND"
  | or => "OR"

/-- The other connective. -/
def complement : Connective → Connective
  | and => or
  | or => and

/-- The connective a word spells, in any case. -/
def ofKeyword? (word : String) : Option Connective :=
  all.find? fun op => sameWord op.keyword word

/-- The connective with this wire name. -/
def ofWireName? (name : String) : Option Connective :=
  all.find? fun op => op.wireName == name

/-- What a connective makes of the truth values of its parts. -/
def combine (op : Connective) (values : List Bool) : Bool :=
  match op with
  | and => values.all id
  | or => values.any id

@[simp] theorem complement_complement (op : Connective) : op.complement.complement = op := by
  cases op <;> rfl

end Connective

/-- The test a leaf of a criteria tree makes. -/
inductive Predicate where
  /-- The attribute equals the value, or one of several values. -/
  | equals
  /-- The attribute differs from the value. -/
  | notEquals
  /-- The attribute contains the value. -/
  | contains
  /-- The attribute does not contain the value. -/
  | doesNotContain
  /-- The attribute begins with the value. -/
  | startsWith
  /-- The attribute ends with the value. -/
  | endsWith
  /-- The attribute is above the value. -/
  | greaterThan
  /-- The attribute is not below the value. -/
  | greaterThanEquals
  /-- The attribute is below the value. -/
  | lessThan
  /-- The attribute is not above the value. -/
  | lessThanEquals
deriving DecidableEq

namespace Predicate

/-- All predicates. -/
def all : List Predicate :=
  [equals, notEquals, contains, doesNotContain, startsWith, endsWith, greaterThan,
    greaterThanEquals, lessThan, lessThanEquals]

/-- The name in criteria trees. -/
def wireName : Predicate → String
  | equals => "EQUALS"
  | notEquals => "NOT_EQUALS"
  | contains => "CONTAINS"
  | doesNotContain => "DOES_NOT_CONTAIN"
  | startsWith => "STARTS_WITH"
  | endsWith => "ENDS_WITH"
  | greaterThan => "GREATER_THAN"
  | greaterThanEquals => "GREATER_THAN_EQUALS"
  | lessThan => "LESS_THAN"
  | lessThanEquals => "LESS_THAN_EQUALS"

/-- The predicate with this wire name. -/
def ofWireName? (name : String) : Option Predicate :=
  all.find? fun p => p.wireName == name

end Predicate

/-- The operator between an attribute and a value in a rule text. -/
inductive Operator where
  /-- `eq`: the same text. -/
  | equal
  /-- `ne`: another text. -/
  | notEqual
  /-- `co`: contains the text. -/
  | contains
  /-- `sw`: starts with the text. -/
  | startsWith
  /-- `ew`: ends with the text. -/
  | endsWith
  /-- `ge`: greater or equal. -/
  | greaterOrEqual
  /-- `gt`: greater. -/
  | greater
  /-- `lt`: less. -/
  | less
  /-- `le`: less or equal. -/
  | lessOrEqual
  /-- `nc`: does not contain the text. -/
  | lacks
  /-- `in`: one of a list of texts; the same test as `eq`. -/
  | oneOf
deriving DecidableEq

namespace Operator

/-- All operators. -/
def all : List Operator :=
  [equal, notEqual, contains, startsWith, endsWith, greaterOrEqual, greater, less, lessOrEqual,
    lacks, oneOf]

/-- The keyword in rule texts. -/
def keyword : Operator → String
  | equal => "eq"
  | notEqual => "ne"
  | contains => "co"
  | startsWith => "sw"
  | endsWith => "ew"
  | greaterOrEqual => "ge"
  | greater => "gt"
  | less => "lt"
  | lessOrEqual => "le"
  | lacks => "nc"
  | oneOf => "in"

/-- The operator a word spells, in any case. -/
def ofKeyword? (word : String) : Option Operator :=
  all.find? fun op => sameWord op.keyword word

/-- The predicate that states this operator in a criteria tree. -/
def predicate : Operator → Predicate
  | equal | oneOf => .equals
  | notEqual => .notEquals
  | contains => .contains
  | lacks => .doesNotContain
  | startsWith => .startsWith
  | endsWith => .endsWith
  | greater => .greaterThan
  | greaterOrEqual => .greaterThanEquals
  | less => .lessThan
  | lessOrEqual => .lessThanEquals

end Operator

namespace Predicate

/-- The operator that states this predicate about a single value. -/
def operator : Predicate → Operator
  | equals => .equal
  | notEquals => .notEqual
  | contains => .contains
  | doesNotContain => .lacks
  | startsWith => .startsWith
  | endsWith => .endsWith
  | greaterThan => .greater
  | greaterThanEquals => .greaterOrEqual
  | lessThan => .less
  | lessThanEquals => .lessOrEqual

@[simp] theorem predicate_operator (p : Predicate) : p.operator.predicate = p := by
  cases p <;> rfl

end Predicate

end Eligibility
