import Eligibility.CriteriaError
import Eligibility.Expression.Parser
import Eligibility.Tree

/-!
# From rules to criteria trees

`Expression.compile` states a rule in three tiers. A rule with two levels of connectives has them
already; where a level is missing, one is put in that holds a single part. The connective of such a
level does not matter to the meaning, and it is the complement of the one next to it: a lone
comparison is in an `AND` group below `OR`.

Sources are resolved one at a time, in document order, and only after the shape of the whole rule
is known to fit.
-/

namespace Eligibility

/-- What a criteria tree is for. -/
inductive Variant where
  /-- Membership in a role: leaves take a value or a list of values. -/
  | role
  /-- Membership in a dimension: leaves take a single value. -/
  | dimension
deriving DecidableEq

/-- The word for a variant. -/
def Variant.word : Variant → String
  | role => "role"
  | dimension => "dimension"

variable {σ : Type}

/-- The kind of key that a scope becomes. -/
def Scope.keyKind : Scope → KeyKind
  | identity => .identity
  | account _ => .account
  | entitlement _ => .entitlement

/-- The leaf that a comparison becomes when its source has the given id. -/
def Comparison.leaf (c : Comparison) (sourceId : Option String) : Leaf :=
  { operation := c.operator.predicate
    key :=
      { kind := c.subject.scope.keyKind
        property := propertyOfName c.subject.property
        sourceId }
    value := c.value }

/-- Compiles a comparison. -/
def Comparison.compile (resolver : Resolver σ) (variant : Variant) (c : Comparison) :
    Criteria σ Leaf :=
  if variant = .dimension && c.value.isList then throw (.shape (.listInDimension c))
  else
    match c.source? with
    | none => return c.leaf none
    | some source => do
      let id ← resolver.ask source
      return c.leaf (some id)

namespace Expression

/-- Compiles the comparisons of a group. -/
def compileLeaves (resolver : Resolver σ) (variant : Variant) :
    List Expression → Criteria σ (List Leaf)
  | [] => return []
  | .comparison c :: rest => do
    let leaf ← c.compile resolver variant
    let leaves ← compileLeaves resolver variant rest
    return leaf :: leaves
  | .logical op children :: _ => throw (.shape (.nestedGroup (.logical op children)))

/-- Compiles expressions under one connective to a group. -/
def compileGroup (resolver : Resolver σ) (variant : Variant) (op : Connective)
    (children : List Expression) : Criteria σ Group := do
  let leaves ← compileLeaves resolver variant children
  return ⟨op, leaves⟩

/-- Compiles the parts of a rule with two levels, joined by the given connective. -/
def compileGroups (resolver : Resolver σ) (variant : Variant) (op : Connective) :
    List Expression → Criteria σ (List Group)
  | [] => return []
  | .comparison c :: rest => do
    let leaf ← c.compile resolver variant
    let groups ← compileGroups resolver variant op rest
    return ⟨op.complement, [leaf]⟩ :: groups
  | .logical inner children :: rest => do
    let group ← compileGroup resolver variant inner children
    let groups ← compileGroups resolver variant op rest
    return group :: groups

/-- Compiles an expression. -/
def compile (resolver : Resolver σ) (variant : Variant) (e : Expression) : Criteria σ Tree :=
  if e.depth > maxDepth then throw (.shape (.tooDeep e.depth))
  else
    match e with
    | .comparison c => do
      let leaf ← c.compile resolver variant
      return ⟨.or, [⟨.and, [leaf]⟩]⟩
    | .logical op children =>
      if e.depth = 1 then do
        let group ← compileGroup resolver variant op children
        return ⟨op.complement, [group]⟩
      else do
        let groups ← compileGroups resolver variant op children
        return ⟨op, groups⟩

/-- Reads a rule text and compiles it. -/
def compileText (resolver : Resolver σ) (variant : Variant) (text : String) : Criteria σ Tree :=
  match parse text with
  | .error e => throw (.parse e)
  | .ok e => e.compile resolver variant

end Expression

end Eligibility
