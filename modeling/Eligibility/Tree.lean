import Eligibility.Expression

/-!
# Criteria trees

A criteria tree states a rule in exactly three tiers: a root, groups below it, and leaves below each
group. The root and every group have a connective, and every leaf tests one attribute. Sources are
known by their ids here.

`Tree.eval` is the Boolean meaning of a tree under a truth value for each leaf.
-/

namespace Eligibility

/-- What the attribute of a leaf belongs to. -/
inductive KeyKind where
  /-- The identity. -/
  | identity
  /-- An account on a source. -/
  | account
  /-- An entitlement on a source. -/
  | entitlement
deriving DecidableEq

namespace KeyKind

/-- All kinds. -/
def all : List KeyKind := [identity, account, entitlement]

/-- The name in criteria trees. -/
def wireName : KeyKind → String
  | identity => "IDENTITY"
  | account => "ACCOUNT"
  | entitlement => "ENTITLEMENT"

/-- The kind with this wire name. -/
def ofWireName? (name : String) : Option KeyKind := all.find? fun kind => kind.wireName == name

end KeyKind

/-- The attribute that a leaf tests. -/
structure Key where
  /-- What the attribute belongs to. -/
  kind : KeyKind
  /-- The property: by convention the name of the attribute after `attribute.`. -/
  property : String
  /-- The id of the source, for accounts and entitlements. -/
  sourceId : Option String
deriving DecidableEq

/-- What every property begins with by convention. -/
def propertyStart : String := "attribute."

/-- The property of an attribute. -/
def propertyOfName (name : String) : String := propertyStart ++ name

/-- The text after a given start, if the text has that start. -/
def dropStart? : List Char → List Char → Option (List Char)
  | [], text => some text
  | _ :: _, [] => none
  | c :: start, d :: text => if c = d then dropStart? start text else none

/-- The name of the attribute: the property without its conventional start. -/
def Key.attributeName (k : Key) : String :=
  match dropStart? propertyStart.toList k.property.toList with
  | some name => String.ofList name
  | none => k.property

/-- One test. -/
structure Leaf where
  /-- How the attribute is tested. -/
  operation : Predicate
  /-- Which attribute is tested. -/
  key : Key
  /-- What it is tested against. -/
  value : Literal
deriving DecidableEq

/-- Leaves under one connective. -/
structure Group where
  /-- The connective. -/
  operation : Connective
  /-- The leaves, in order. -/
  leaves : List Leaf
deriving DecidableEq

/-- Groups under one connective. -/
structure Tree where
  /-- The connective. -/
  operation : Connective
  /-- The groups, in order. -/
  groups : List Group
deriving DecidableEq

/-- All leaves of a tree, in order. -/
def Tree.leaves (t : Tree) : List Leaf := t.groups.flatMap Group.leaves

/-- The truth value of a group, given one for each leaf. -/
def Group.eval (truth : Leaf → Bool) (g : Group) : Bool :=
  g.operation.combine (g.leaves.map truth)

/-- The truth value of a tree, given one for each leaf. -/
def Tree.eval (truth : Leaf → Bool) (t : Tree) : Bool :=
  t.operation.combine (t.groups.map (Group.eval truth))

end Eligibility
