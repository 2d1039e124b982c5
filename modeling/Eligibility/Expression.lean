import Eligibility.Keyword

/-!
# Rules as expressions

A rule decides who belongs to something. Its leaves are comparisons of an attribute with a literal;
an attribute belongs to the identity itself, or to an account or an entitlement that the identity
has on a named source. Connectives join any number of rules into one.

`Expression.comparisons` lists the leaves in document order, and `Expression.sourceNames` the
sources they mention, each once. `Expression.eval` is the Boolean meaning of a rule under a truth
value for each comparison. `Expression.IsRegular` singles out the expressions that texts denote:
every connective joins at least two parts and no list of values is empty.
-/

namespace Eligibility

/-- Whose attribute is meant. Sources are named the way people know them. -/
inductive Scope where
  /-- An attribute of the identity. -/
  | identity
  /-- An attribute of the identity's account on a source. -/
  | account (source : String)
  /-- An attribute of an entitlement that the identity holds on a source. -/
  | entitlement (source : String)
deriving DecidableEq

/-- The source a scope names, if it names one. -/
def Scope.source? : Scope → Option String
  | identity => none
  | account source | entitlement source => some source

/-- The left-hand side of a comparison. -/
structure Attribute where
  /-- Whose attribute it is. -/
  scope : Scope
  /-- The name of the attribute. -/
  property : String
deriving DecidableEq

/-- The right-hand side of a comparison. -/
inductive Literal where
  /-- One value. -/
  | single (value : String)
  /-- A list of values, which is the only way to speak of membership in a set. -/
  | list (values : List String)
deriving DecidableEq

/-- Whether a literal is a list. -/
def Literal.isList : Literal → Bool
  | single _ => false
  | list _ => true

/-- One test of one attribute. -/
structure Comparison where
  /-- How the attribute is compared. -/
  operator : Operator
  /-- What is compared. -/
  subject : Attribute
  /-- What it is compared with. -/
  value : Literal
deriving DecidableEq

/-- The source a comparison mentions, if it mentions one. -/
def Comparison.source? (c : Comparison) : Option String := c.subject.scope.source?

/-- A rule: a comparison, or several rules joined by one connective. -/
inductive Expression where
  /-- A single test. -/
  | comparison (c : Comparison)
  /-- Rules joined by a connective. -/
  | logical (op : Connective) (children : List Expression)

namespace Expression

mutual

/-- Equality of expressions is decided node by node. -/
protected def decEq : (a b : Expression) → Decidable (a = b)
  | .comparison c, .comparison d => decidable_of_iff (c = d) (by simp)
  | .comparison _, .logical _ _ => isFalse (by simp)
  | .logical _ _, .comparison _ => isFalse (by simp)
  | .logical o cs, .logical p ds =>
    match decEq o p, Expression.decEqAll cs ds with
    | isTrue h, isTrue h' => isTrue (by rw [h, h'])
    | isFalse h, _ => isFalse (by simp [h])
    | _, isFalse h => isFalse (by simp [h])

/-- Equality of lists of expressions is decided element by element. -/
protected def decEqAll : (as bs : List Expression) → Decidable (as = bs)
  | [], [] => isTrue rfl
  | [], _ :: _ => isFalse (by simp)
  | _ :: _, [] => isFalse (by simp)
  | a :: as, b :: bs =>
    match Expression.decEq a b, Expression.decEqAll as bs with
    | isTrue h, isTrue h' => isTrue (by rw [h, h'])
    | isFalse h, _ => isFalse (by simp [h])
    | _, isFalse h => isFalse (by simp [h])

end

instance : DecidableEq Expression := Expression.decEq

/-- Whether an expression is a single comparison. -/
def isComparison : Expression → Bool
  | .comparison _ => true
  | .logical _ _ => false

mutual

/-- The number of connectives on the way from the root down to the deepest comparison. -/
def depth : Expression → Nat
  | .comparison _ => 0
  | .logical _ children => 1 + depthAll children

/-- The greatest depth among several expressions, zero if there are none. -/
def depthAll : List Expression → Nat
  | [] => 0
  | e :: es => max e.depth (depthAll es)

end

mutual

/-- The comparisons of an expression in document order. -/
def comparisons : Expression → List Comparison
  | .comparison c => [c]
  | .logical _ children => comparisonsAll children

/-- The comparisons of several expressions in document order. -/
def comparisonsAll : List Expression → List Comparison
  | [] => []
  | e :: es => e.comparisons ++ comparisonsAll es

end

mutual

/-- The truth value of an expression, given one for each comparison. -/
def eval (truth : Comparison → Bool) : Expression → Bool
  | .comparison c => truth c
  | .logical op children => op.combine (evalAll truth children)

/-- The truth values of several expressions. -/
def evalAll (truth : Comparison → Bool) : List Expression → List Bool
  | [] => []
  | e :: es => e.eval truth :: evalAll truth es

end

mutual

/-- The expressions that texts denote: every connective joins two parts or more, and every list of
values has a value. -/
def IsRegular : Expression → Prop
  | .comparison c => c.value ≠ .list []
  | .logical _ children => 2 ≤ children.length ∧ AllRegular children

/-- Every expression of a list is regular. -/
def AllRegular : List Expression → Prop
  | [] => True
  | e :: es => e.IsRegular ∧ AllRegular es

end

end Expression

/-- The elements of a list without the repeats of earlier ones. -/
def distinct (names : List String) : List String :=
  names.foldl (fun seen name => if name ∈ seen then seen else seen ++ [name]) []

/-- The distinct sources that an expression mentions, in document order. -/
def Expression.sourceNames (e : Expression) : List String :=
  distinct (e.comparisons.filterMap Comparison.source?)

/-- A stop on the way through an expression. -/
inductive Visit where
  /-- Before the given number of parts that a connective joins. -/
  | enter (op : Connective) (parts : Nat)
  /-- At the attribute of a comparison. -/
  | subject (a : Attribute)
  /-- At the literal of a comparison. -/
  | literal (l : Literal)
  /-- After the last part that a connective joins. -/
  | leave
deriving DecidableEq

mutual

/-- The way through an expression, depth first and in document order. -/
def Expression.visits : Expression → List Visit
  | .comparison c => [.subject c.subject, .literal c.value]
  | .logical op children => .enter op children.length :: visitsAll children ++ [.leave]

/-- The way through several expressions, one after the other. -/
def Expression.visitsAll : List Expression → List Visit
  | [] => []
  | e :: es => e.visits ++ visitsAll es

end

end Eligibility
