import Eligibility.Expression
import Eligibility.Expression.ValueList
import Eligibility.Scan.Group

/-!
# Reading expressions

A rule text is a sequence of operands with a connective between each two:

```text
expression := operand ( connective operand )*
operand    := '(' expression ')' | comparison
comparison := attribute operator literal
attribute  := 'identity' '.' token | token '.' ( 'attribute' | 'entitlement' ) '.' token
literal    := token | '(' value ( ',' value )* ')'
```

The connectives between the operands of one level are all the same. A level with one operand is that
operand; a level with several is their combination. A group is cut out of the text first and then
read as a text of its own, so that reading ends because every group is shorter than the text that
holds it.

The main definition is `Expression.parse`.
-/

namespace Eligibility

namespace Scan

/-! ## Comparisons -/

/-- Reads the dot that has to follow a word. -/
def expectDot (after : String) : Scan Unit := fun c =>
  let c := c.skipBlanks
  if c.current? = some '.' then .ok () c.advance
  else .error (.missingSeparator after c.offset) c

/-- Whose attribute a word between two dots means, on the given source. -/
def scopeOfKind (source : String) (kind : Token) : Except ParseError Scope :=
  if kind.isKeyword "attribute" then .ok (.account source)
  else if kind.isKeyword "entitlement" then .ok (.entitlement source)
  else .error (.unknownAttributeKind kind.text kind.offset)

/-- Reads the rest of an attribute after its first token. -/
def readAttribute (first : Token) : Scan Attribute := do
  expectDot first.text
  if first.isKeyword "identity" then
    let property ← readWord
    return ⟨.identity, property.text⟩
  else
    let kind ← readWord
    expectDot kind.text
    match scopeOfKind first.text kind with
    | .error e => throw e
    | .ok scope =>
      let property ← readWord
      return ⟨scope, property.text⟩

/-- Reads a comparison operator. -/
def readOperator : Scan Operator := do
  let token ← readWord
  match if token.quoted then none else Operator.ofKeyword? token.text with
  | some op => return op
  | none => throw (.unknownOperator token.text token.offset)

/-- Reads the right-hand side of a comparison. -/
def readLiteral : Scan Literal := do
  let token ← readToken
  if token.isEmpty then
    let c ← get
    if c.current? = some '(' then Literal.list <$> readValueList else unexpected
  else return .single token.text

/-- Reads the rest of a comparison after its first token. -/
def readComparison (first : Token) : Scan Comparison := do
  let subject ← readAttribute first
  let operator ← readOperator
  let value ← readLiteral
  return { operator, subject, value }

/-! ## Operands and connectives -/

/-- An operand before its groups are read. -/
inductive Operand where
  /-- A comparison. -/
  | comparison (c : Comparison)
  /-- The inside of a pair of parentheses. -/
  | group (inside : Cursor)

/-- Reads a comparison as an operand. -/
def readComparisonOperand : Scan Operand := do
  let token ← readToken
  if token.isEmpty then unexpected else Operand.comparison <$> readComparison token

/-- Reads an operand. -/
def readOperand : Scan Operand := fun c =>
  if c.current? = some '(' then (Operand.group <$> readGroup) c.advance
  else readComparisonOperand c

/-- Reads a connective, with the token that spells it. -/
def readConnective : Scan (Connective × Token) := do
  let token ← readToken
  match if token.quoted then none else Connective.ofKeyword? token.text with
  | some op => return (op, token)
  | none => throw (.expectedConnective token.text token.offset)

/-! ## Progress -/

theorem advances_expectDot (after : String) : Advances (expectDot after) := by
  intro c a next h
  unfold expectDot at h
  dsimp only at h
  split at h
  · rename_i hdot
    cases h
    exact Nat.lt_of_lt_of_le (Cursor.length_advance_lt (Cursor.rest_ne_nil_of_current? hdot))
      c.length_skipBlanks_le
  · cases h

theorem advances_readAttribute (first : Token) : Advances (readAttribute first) := by
  refine (advances_expectDot _).bind fun _ => ?_
  split
  · exact forward_readWord.bind fun _ => Forward.pure _
  · refine forward_readWord.bind fun kind => (advances_expectDot _).forward.bind fun _ => ?_
    split
    · exact Forward.throw _
    · exact forward_readWord.bind fun _ => Forward.pure _

theorem forward_readOperator : Forward readOperator := by
  refine forward_readWord.bind fun token => ?_
  split
  · exact Forward.pure _
  · exact Forward.throw _

theorem forward_readLiteral : Forward readLiteral := by
  refine forward_readToken.bind fun token => ?_
  split
  · refine Forward.get.bind fun _ => ?_
    split
    · exact forward_readValueList.map _
    · exact forward_unexpected
  · exact Forward.pure _

theorem advances_readComparison (first : Token) : Advances (readComparison first) :=
  (advances_readAttribute _).bind fun _ => forward_readOperator.bind fun _ =>
    forward_readLiteral.bind fun _ => Forward.pure _

theorem advances_readComparisonOperand : Advances readComparisonOperand := by
  refine forward_readToken.bind_advances fun token => ?_
  split
  · exact advances_unexpected
  · exact (advances_readComparison _).map _

theorem advances_readOperand : Advances readOperand := by
  intro c a next h
  unfold readOperand at h
  split at h
  · have hgroup : Advances readGroup := fun _ _ _ hg => (length_readGroup_lt hg).2
    exact Nat.lt_of_lt_of_le (hgroup.map _ _ _ _ h) c.length_advance_le
  · exact advances_readComparisonOperand _ _ _ h

/-- The inside of a group is shorter than the text the group is read from. -/
theorem length_inside_lt {c inside next : Cursor} (h : readOperand c = .ok (.group inside) next) :
    inside.rest.length < c.rest.length := by
  unfold readOperand at h
  split at h
  · cases hg : readGroup c.advance with
    | ok found after =>
      rw [map_ok hg] at h
      cases h
      exact Nat.lt_of_lt_of_le (length_readGroup_lt hg).1 c.length_advance_le
    | error e after =>
      rw [map_error hg] at h
      cases h
  · unfold readComparisonOperand at h
    cases ht : readToken c with
    | ok token after =>
      rw [bind_ok ht] at h
      split at h
      · unfold unexpected at h
        split at h <;> cases h
      · cases hx : readComparison token after with
        | ok x stop =>
          rw [map_ok hx] at h
          cases h
        | error e stop =>
          rw [map_error hx] at h
          cases h
    | error e after =>
      rw [bind_error ht] at h
      cases h

/-- A connective takes at least one character, because no keyword is empty. -/
theorem advances_readConnective : Advances readConnective := by
  intro c a next h
  unfold readConnective at h
  cases ht : readToken c with
  | error e mid =>
    rw [bind_error ht] at h
    cases h
  | ok token mid =>
    rw [bind_ok ht] at h
    cases hop : if token.quoted then none else Connective.ofKeyword? token.text with
    | none =>
      rw [hop] at h
      cases h
    | some op =>
      rw [hop] at h
      cases h
      refine length_readToken_lt ht ?_
      cases hq : token.quoted with
      | true => simp [Token.isEmpty, hq]
      | false =>
        simp only [hq, Bool.false_eq_true, if_false] at hop
        have hne : token.text ≠ "" := by
          intro hempty
          have hnone : Connective.ofKeyword? "" = none := by decide
          rw [hempty, hnone] at hop
          cases hop
        simp [Token.isEmpty, hq, hne]

end Scan

/-! ## Levels -/

/-- What is known about one level of a rule after some of its operands and connectives. -/
structure Level where
  /-- The operands read so far. -/
  operands : List Expression
  /-- The first connective, with its spelling. -/
  connective : Option (Connective × String)
  /-- Whether an operand has to follow. -/
  expecting : Bool

namespace Level

/-- A level of which nothing is read. -/
def start : Level := ⟨[], none, true⟩

/-- The level with one more operand. -/
def push (level : Level) (operand : Expression) : Level :=
  ⟨level.operands ++ [operand], level.connective, false⟩

/-- The level with one more connective, which must not differ from the first. -/
def join (level : Level) (op : Connective) (token : Token) : Except ParseError Level :=
  match level.connective with
  | none => .ok ⟨level.operands, some (op, token.text), true⟩
  | some (first, text) =>
    if first = op then .ok ⟨level.operands, level.connective, true⟩
    else .error (.mixedConnectives text token.text token.offset)

/-- The expression of a level that ends at the given offset. -/
def finish (level : Level) (offset : Nat) : Except ParseError Expression :=
  match level.operands, level.connective with
  | [], _ => .error .emptyExpression
  | operand :: operands, connective =>
    if level.expecting then .error .danglingConnective
    else
      match operands, connective with
      | [], _ => .ok operand
      | _, some (op, _) => .ok (.logical op (operand :: operands))
      | _, none => .error (.expectedConnective "" offset)

/-- Reads the rest of a level, and of the groups in it. -/
def parse (level : Level) (c : Cursor) : Except ParseError Expression :=
  if c.skipBlanks.isAtEnd then level.finish c.skipBlanks.offset
  else if level.expecting then
    match _h : Scan.readOperand c.skipBlanks with
    | .error e _ => .error e
    | .ok (.comparison x) next => (level.push (.comparison x)).parse next
    | .ok (.group inside) next =>
      match start.parse inside with
      | .error e => .error e
      | .ok e => (level.push e).parse next
  else
    match _h : Scan.readConnective c.skipBlanks with
    | .error e _ => .error e
    | .ok (op, token) next =>
      match level.join op token with
      | .error e => .error e
      | .ok joined => joined.parse next
termination_by c.rest.length
decreasing_by
  · exact Nat.lt_of_lt_of_le (Scan.advances_readOperand _ _ _ _h) c.length_skipBlanks_le
  · exact Nat.lt_of_lt_of_le (Scan.length_inside_lt _h) c.length_skipBlanks_le
  · exact Nat.lt_of_lt_of_le (Scan.advances_readOperand _ _ _ _h) c.length_skipBlanks_le
  · exact Nat.lt_of_lt_of_le (Scan.advances_readConnective _ _ _ _h) c.length_skipBlanks_le

end Level

/-- Reads a rule text that may be a fragment of a larger one. -/
def Expression.parseAt (c : Cursor) : Except ParseError Expression := Level.start.parse c

/-- Reads a rule text. -/
def Expression.parse (text : String) : Except ParseError Expression :=
  parseAt (Cursor.ofString text)

end Eligibility
