import Eligibility.CriteriaError
import Eligibility.Tree

/-!
# From criteria trees to rules

`Tree.render` writes the rule text that a criteria tree states, with the names of the sources that
a resolver gives for their ids. A tree with a single group is written as that group; if every group
has one leaf, the leaves are joined directly; otherwise every group stands in parentheses. A tree
without groups has the empty text.
-/

namespace Eligibility

variable {σ : Type}

/-- The scope that a key means, once its source is named. -/
def KeyKind.scope (kind : KeyKind) (source : String) : Scope :=
  match kind with
  | identity => .identity
  | account => .account source
  | entitlement => .entitlement source

/-- Finds the scope of a leaf. -/
def Leaf.scope (resolver : Resolver σ) (l : Leaf) : Criteria σ Scope :=
  if l.key.kind = .identity then return .identity
  else
    match l.key.sourceId with
    | none => throw (.shape (.missingSourceId l.key.property))
    | some id => do
      let source ← resolver.ask id
      return l.key.kind.scope source

/-- The operator that states the test of a leaf: equality with a list is membership. -/
def Leaf.operator (l : Leaf) : Operator :=
  if l.operation = .equals && l.value.isList then .oneOf else l.operation.operator

/-- The comparison that a leaf states. -/
def Leaf.comparison (resolver : Resolver σ) (l : Leaf) : Criteria σ Comparison := do
  let scope ← l.scope resolver
  if l.value = .list [] then throw (.shape (.emptyValues l.key.property))
  else return { operator := l.operator, subject := ⟨scope, l.key.attributeName⟩, value := l.value }

/-- The texts of leaves. -/
def Group.leafTexts (resolver : Resolver σ) : List Leaf → Criteria σ (List String)
  | [] => return []
  | l :: rest => do
    let comparison ← l.comparison resolver
    let texts ← leafTexts resolver rest
    return comparison.text :: texts

/-- The text of a group, which must have a leaf. -/
def Group.render (resolver : Resolver σ) (g : Group) : Criteria σ String :=
  if g.leaves = [] then throw (.shape .emptyGroup)
  else do
    let texts ← leafTexts resolver g.leaves
    return g.operation.separator.intercalate texts

/-- The texts of groups in parentheses. -/
def Tree.groupTexts (resolver : Resolver σ) : List Group → Criteria σ (List String)
  | [] => return []
  | g :: rest => do
    let text ← g.render resolver
    let texts ← groupTexts resolver rest
    return ("(" ++ text ++ ")") :: texts

/-- The rule text of a tree. -/
def Tree.render (resolver : Resolver σ) (t : Tree) : Criteria σ String :=
  match t.groups with
  | [] => return ""
  | [group] => group.render resolver
  | groups =>
    if groups.all fun g => g.leaves.length == 1 then do
      let texts ← Group.leafTexts resolver (groups.flatMap Group.leaves)
      return t.operation.separator.intercalate texts
    else do
      let texts ← groupTexts resolver groups
      return t.operation.separator.intercalate texts

end Eligibility
