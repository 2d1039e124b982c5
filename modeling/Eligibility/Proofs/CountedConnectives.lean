import Eligibility.Proofs.LocalErrors
import Eligibility.Proofs.Progress

/-!
# Connectives that are counted

What is known about a level accounts for all that has been read of it (`Level.Accounts`): there are
as many connectives as operands while an operand has to follow, and one less otherwise, and the
first connective is kept. So when a level ends with several operands there is a connective to join
them, and it ends with a connective only if that was read last (`Level.connectives_counted`).
-/

namespace Eligibility.Level

/-- The operands among the parts of a level. -/
def operandsOf (parts : List Part) : List Expression :=
  parts.filterMap fun
    | .operand e => some e
    | .connective _ _ => none

/-- The connectives among the parts of a level, as they are spelled. -/
def connectivesOf (parts : List Part) : List (Connective × String) :=
  parts.filterMap fun
    | .operand _ => none
    | .connective op token => some (op, token.text)

/-- Whether a connective is the last of the parts. -/
def EndInConnective (parts : List Part) : Prop :=
  ∃ op token, parts.getLast? = some (.connective op token)

/-- What is known about a level accounts for the parts that have been read. -/
structure Accounts (parts : List Part) (level : Level) : Prop where
  /-- All operands are kept. -/
  operands : level.operands = operandsOf parts
  /-- There are as many connectives as operands, or one less if no operand has to follow. -/
  count : level.operands.length = (connectivesOf parts).length + if level.expecting then 0 else 1
  /-- The first connective is kept. -/
  first : level.connective = (connectivesOf parts).head?
  /-- An operand has to follow at the start and behind a connective. -/
  last : level.expecting = true ↔ parts = [] ∨ EndInConnective parts

/-! ## Passes -/

section Accounts

variable {parts : List Part} {level : Level}

theorem endInConnective_connective (parts : List Part) (op : Connective) (token : Token) :
    EndInConnective (parts ++ [.connective op token]) := ⟨op, token, by simp⟩

theorem not_endInConnective_operand (parts : List Part) (e : Expression) :
    ¬ EndInConnective (parts ++ [.operand e]) := by
  rintro ⟨op, token, h⟩
  simp at h

theorem accounts_start : Accounts [] start where
  operands := rfl
  count := rfl
  first := rfl
  last := by simp [start]

theorem Accounts.push (h : Accounts parts level) (hexpecting : level.expecting = true)
    (e : Expression) : Accounts (parts ++ [.operand e]) (level.push e) where
  operands := by simp [Level.push, operandsOf, h.operands]
  count := by
    have hcount := h.count
    simp only [hexpecting, if_true] at hcount
    simp [Level.push, connectivesOf, hcount]
  first := by simp [Level.push, connectivesOf, h.first]
  last := by simp [Level.push, not_endInConnective_operand]

/-- A connective is kept if none was read before. -/
theorem connective_of_join {op : Connective} {token : Token} {joined : Level}
    (h : level.join op token = .ok joined) :
    joined.connective = level.connective.or (some (op, token.text)) := by
  unfold Level.join at h
  split at h
  · rename_i hnone
    cases h
    rw [hnone, Option.none_or]
  · rename_i p text hsome
    split at h
    · cases h
      rw [hsome, Option.some_or]
    · cases h

theorem Accounts.join {op : Connective} {token : Token} {joined : Level} (h : Accounts parts level)
    (hexpecting : level.expecting = false) (hjoin : level.join op token = .ok joined) :
    Accounts (parts ++ [.connective op token]) joined := by
  obtain ⟨hoperands, hjoined, -, -⟩ := join_eq_ok hjoin
  refine ⟨?_, ?_, ?_, ?_⟩
  · simp [hoperands, h.operands, operandsOf]
  · have hcount := h.count
    simp only [hexpecting, Bool.false_eq_true, if_false] at hcount
    simp [hoperands, hjoined, hcount, connectivesOf]
  · rw [connective_of_join hjoin, h.first]
    simp [connectivesOf, List.head?_append]
  · exact iff_of_true hjoined (.inr (endInConnective_connective parts op token))

/-- Wherever the passes come to, the level accounts for what they have read. -/
theorem Reaches.accounts {c here : Cursor} (h : Reaches c parts level here) :
    Accounts parts level := by
  induction h with
  | start => exact accounts_start
  | read _ hpass ih =>
    cases passed_of_pass hpass with
    | comparison _ hexpecting _ => exact ih.push hexpecting _
    | connective _ hexpecting _ hjoin => exact ih.join hexpecting hjoin
  | group _ hpass _ ih =>
    cases passed_of_pass hpass with
    | group _ hexpecting _ => exact ih.push hexpecting _

end Accounts

/-! ## The end of a level -/

section Ends

variable {parts : List Part} {level : Level} {here : Cursor} {offset : Nat}
  {result : Except ParseError Expression}

theorem Accounts.connective_ne_none (h : Accounts parts level)
    (hoperands : 2 ≤ level.operands.length) : level.connective ≠ none := by
  intro hnone
  have hcount := h.count
  have hfirst := h.first
  rw [hnone, eq_comm, List.head?_eq_none_iff] at hfirst
  rw [hfirst, List.length_nil] at hcount
  split at hcount <;> omega

theorem finish_ne_expectedConnective (h : 2 ≤ level.operands.length → level.connective ≠ none)
    (token : String) (place : Nat) :
    level.finish offset ≠ .error (.expectedConnective token place) := by
  obtain ⟨operands, connective, expecting⟩ := level
  cases operands with
  | nil => simp [finish]
  | cons operand operands =>
    cases operands with
    | nil => cases expecting <;> simp [finish]
    | cons second operands =>
      obtain ⟨⟨op, word⟩, rfl⟩ := Option.ne_none_iff_exists'.1 (h (by simp))
      cases expecting <;> simp [finish]

theorem finish_eq_danglingConnective :
    level.finish offset = .error .danglingConnective ↔
      level.operands ≠ [] ∧ level.expecting = true := by
  obtain ⟨operands, connective, expecting⟩ := level
  cases operands with
  | nil => simp [finish]
  | cons operand operands =>
    cases expecting with
    | true => simp [finish]
    | false =>
      unfold finish
      dsimp only
      split
      · contradiction
      · split <;> simp

theorem eq_finish_of_pass (h : level.pass here = .ended result) :
    result = level.finish here.skipBlanks.offset := by
  cases passed_of_pass h
  rfl

/-- A level that accounts for its parts ends with a connective exactly if one was read last. -/
theorem Accounts.ended_iff (h : Accounts parts level) (hpass : level.pass here = .ended result) :
    result = .error .danglingConnective ↔ level.operands ≠ [] ∧ EndInConnective parts := by
  rw [eq_finish_of_pass hpass, finish_eq_danglingConnective, h.last]
  refine and_congr_right fun hne => or_iff_right ?_
  rintro rfl
  exact hne h.operands

/-- No pass fails because a connective is left over. -/
theorem ne_danglingConnective_of_pass {e : ParseError} (h : level.pass here = .failed e) :
    e ≠ .danglingConnective := by
  rintro rfl
  cases passed_of_pass h with
  | noOperand _ _ hread => exact Scan.failsLocally_readOperand _ _ _ hread
  | noConnective _ _ hread => exact Scan.failsLocally_readConnective _ _ _ hread
  | refused _ _ _ hjoin =>
    unfold Level.join at hjoin
    split at hjoin
    · cases hjoin
    · split at hjoin <;> cases hjoin

/-- Among the levels that are begun while the level at `c` is read, one ends with a connective. -/
def SomeEndsInConnective (c : Cursor) : Prop :=
  ∃ inside parts level here result, Begins c inside ∧ Reaches inside parts level here ∧
    level.pass here = .ended result ∧ level.operands ≠ [] ∧ EndInConnective parts

/-- If the reading of a level fails because a connective is left over, this is so where a level has
ended: the level itself, or one in a group. -/
theorem someEndsInConnective_of_parse {c : Cursor} (level : Level) (here : Cursor) :
    ∀ (outer : Cursor) (parts : List Part), Begins c outer → Reaches outer parts level here →
      level.parse here = .error .danglingConnective → SomeEndsInConnective c := by
  induction level, here using pass_induction with
  | step level here hread hgroup =>
    intro outer parts hbegins hreaches hparse
    rw [parse_eq] at hparse
    cases hpass : level.pass here with
    | ended result =>
      rw [hpass] at hparse
      obtain ⟨hne, hlast⟩ := (hreaches.accounts.ended_iff hpass).1 hparse
      exact ⟨outer, parts, level, here, result, hbegins, hreaches, hpass, hne, hlast⟩
    | failed e =>
      rw [hpass] at hparse
      cases hparse
      exact absurd rfl (ne_danglingConnective_of_pass hpass)
    | read part level' next =>
      rw [hpass] at hparse
      exact hread part level' next hpass outer _ hbegins (hreaches.read hpass) hparse
    | group inside next =>
      rw [hpass] at hparse
      obtain ⟨hinner, hafter⟩ := hgroup inside next hpass
      cases hinside : start.parse inside with
      | error e =>
        simp only [hinside] at hparse
        cases hparse
        exact hinner inside [] (hbegins.group hreaches hpass) .start hinside
      | ok e =>
        simp only [hinside] at hparse
        exact hafter e outer _ hbegins (hreaches.group hpass hinside) hparse

theorem parse_of_someEndsInConnective {c : Cursor} (h : SomeEndsInConnective c) :
    start.parse c = .error .danglingConnective := by
  obtain ⟨inside, parts, level, here, result, hbegins, hreaches, hpass, hne, hlast⟩ := h
  refine hbegins.parse_eq_error ?_
  rw [hreaches.parse_eq, parse_eq, hpass]
  exact (hreaches.accounts.ended_iff hpass).2 ⟨hne, hlast⟩

end Ends

/-- At every pass over a level the operands and connectives that have been read are counted: there
is a connective for each operand if one has to follow, and else one less, and the level keeps the
first. So a level that ends with several operands has a connective to join them, and no level ends
because it misses one. A level ends with an error about a connective that is left over exactly if it
has an operand and a connective was read last; and reading fails with this error exactly if a level
ends so, be it the level itself or that of a group in it. -/
theorem connectives_counted (text : String) (base : Nat) :
    (∀ parts level here, Reaches ⟨text.toList, base⟩ parts level here →
      level.operands = operandsOf parts ∧
      level.operands.length = (connectivesOf parts).length + (if level.expecting then 0 else 1) ∧
      level.connective = (connectivesOf parts).head? ∧
      ∀ result, level.pass here = .ended result →
        (2 ≤ level.operands.length → level.connective ≠ none) ∧
        (∀ token offset, result ≠ .error (.expectedConnective token offset)) ∧
        (result = .error .danglingConnective ↔ level.operands ≠ [] ∧ EndInConnective parts)) ∧
    (Expression.parseAt ⟨text.toList, base⟩ = .error .danglingConnective ↔
      SomeEndsInConnective ⟨text.toList, base⟩) := by
  refine ⟨fun parts level here hreaches => ?_, fun h => ?_, parse_of_someEndsInConnective⟩
  · have haccounts := hreaches.accounts
    refine ⟨haccounts.operands, haccounts.count, haccounts.first, fun result hpass => ?_⟩
    refine ⟨haccounts.connective_ne_none, ?_, haccounts.ended_iff hpass⟩
    rw [eq_finish_of_pass hpass]
    exact finish_ne_expectedConnective haccounts.connective_ne_none
  · exact someEndsInConnective_of_parse start _ _ [] .self .start h

/-- A level that ends with its first connective, in a text that stands three bytes further on. -/
theorem connectives_counted_leftOver :
    ∃ parts level here, Reaches ⟨"identity.a eq 1 or".toList, 3⟩ parts level here ∧
      connectivesOf parts = [(.or, "or")] ∧ level.operands.length = 1 ∧
      level.connective = some (.or, "or") ∧
      level.pass here = .ended (.error .danglingConnective) ∧
      Expression.parseAt ⟨"identity.a eq 1 or".toList, 3⟩ = .error .danglingConnective := by
  have hoperand : start.pass ⟨"identity.a eq 1 or".toList, 3⟩ =
      .read (.operand (.comparison ⟨.equal, ⟨.identity, "a"⟩, .single "1"⟩))
        ⟨[.comparison ⟨.equal, ⟨.identity, "a"⟩, .single "1"⟩], none, false⟩
        ⟨" or".toList, 18⟩ := by rfl
  have hconnective : Level.pass
      ⟨[.comparison ⟨.equal, ⟨.identity, "a"⟩, .single "1"⟩], none, false⟩ ⟨" or".toList, 18⟩ =
      .read (.connective .or ⟨"or", false, 19⟩)
        ⟨[.comparison ⟨.equal, ⟨.identity, "a"⟩, .single "1"⟩], some (.or, "or"), true⟩
        ⟨[], 21⟩ := by rfl
  have hreaches := (Reaches.start.read hoperand).read hconnective
  obtain ⟨hcounted, hleftOver⟩ := connectives_counted "identity.a eq 1 or" 3
  obtain ⟨-, hcount, hfirst, -⟩ := hcounted _ _ _ hreaches
  have hends : SomeEndsInConnective ⟨"identity.a eq 1 or".toList, 3⟩ :=
    ⟨_, _, _, _, _, .self, hreaches, rfl, by simp, _, _, rfl⟩
  exact ⟨_, _, _, hreaches, rfl, hcount, hfirst, rfl, hleftOver.2 hends⟩

end Eligibility.Level
