import Eligibility.Proofs.Levels

/-!
# Passes over a level

A level is read in passes. Each one looks at what is known about the level and reads an operand or a
connective, unless the text ends or reading fails. Here one pass is a function of its own
(`Level.pass`), and reading a level is shown to be pass after pass (`Level.parse_eq`).

Where the passes over a level come to, and what they have read on the way, is `Level.Reaches`; which
levels are begun while a text is read, its own and those of the groups in it, is `Level.Begins`.
-/

namespace Eligibility.Level

/-- What a pass reads. -/
inductive Part where
  /-- An operand, with its groups read. -/
  | operand (e : Expression)
  /-- A connective, with the token that spells it. -/
  | connective (op : Connective) (token : Token)

/-- What a pass comes to. -/
inductive Pass where
  /-- The text ends, and so does the level. -/
  | ended (result : Except ParseError Expression)
  /-- Reading fails. -/
  | failed (e : ParseError)
  /-- A comparison or a connective is read, and the next pass follows. -/
  | read (part : Part) (level : Level) (next : Cursor)
  /-- A group is cut out. Its inside is read as a level of its own, and the next pass follows if
  this succeeds. -/
  | group (inside next : Cursor)

/-- One pass over a level. -/
def pass (level : Level) (c : Cursor) : Pass :=
  if c.skipBlanks.isAtEnd then .ended (level.finish c.skipBlanks.offset)
  else if level.expecting then
    match Scan.readOperand c.skipBlanks with
    | .error e _ => .failed e
    | .ok (.comparison x) next => .read (.operand (.comparison x)) (level.push (.comparison x)) next
    | .ok (.group inside) next => .group inside next
  else
    match Scan.readConnective c.skipBlanks with
    | .error e _ => .failed e
    | .ok (op, token) next =>
      match level.join op token with
      | .error e => .failed e
      | .ok joined => .read (.connective op token) joined next

/-- What a pass has done, by what it comes to. -/
inductive Passed (level : Level) (c : Cursor) : Pass → Prop where
  /-- Nothing but blanks is left. -/
  | ended (hend : c.skipBlanks.isAtEnd = true) :
      Passed level c (.ended (level.finish c.skipBlanks.offset))
  /-- There is no operand. -/
  | noOperand {e : ParseError} {stopped : Cursor} (hend : c.skipBlanks.isAtEnd = false)
      (hexpecting : level.expecting = true)
      (hread : Scan.readOperand c.skipBlanks = .error e stopped) : Passed level c (.failed e)
  /-- A comparison is read. -/
  | comparison {x : Comparison} {next : Cursor} (hend : c.skipBlanks.isAtEnd = false)
      (hexpecting : level.expecting = true)
      (hread : Scan.readOperand c.skipBlanks = .ok (.comparison x) next) :
      Passed level c (.read (.operand (.comparison x)) (level.push (.comparison x)) next)
  /-- A group is cut out. -/
  | group {inside next : Cursor} (hend : c.skipBlanks.isAtEnd = false)
      (hexpecting : level.expecting = true)
      (hread : Scan.readOperand c.skipBlanks = .ok (.group inside) next) :
      Passed level c (.group inside next)
  /-- There is no connective. -/
  | noConnective {e : ParseError} {stopped : Cursor} (hend : c.skipBlanks.isAtEnd = false)
      (hexpecting : level.expecting = false)
      (hread : Scan.readConnective c.skipBlanks = .error e stopped) : Passed level c (.failed e)
  /-- The connective differs from the first one. -/
  | refused {op : Connective} {token : Token} {next : Cursor} {e : ParseError}
      (hend : c.skipBlanks.isAtEnd = false) (hexpecting : level.expecting = false)
      (hread : Scan.readConnective c.skipBlanks = .ok (op, token) next)
      (hjoin : level.join op token = .error e) : Passed level c (.failed e)
  /-- A connective is read. -/
  | connective {op : Connective} {token : Token} {next : Cursor} {joined : Level}
      (hend : c.skipBlanks.isAtEnd = false) (hexpecting : level.expecting = false)
      (hread : Scan.readConnective c.skipBlanks = .ok (op, token) next)
      (hjoin : level.join op token = .ok joined) :
      Passed level c (.read (.connective op token) joined next)

theorem passed_of_pass {level : Level} {c : Cursor} {outcome : Pass}
    (h : level.pass c = outcome) : Passed level c outcome := by
  subst h
  unfold pass
  split
  · rename_i hend
    exact .ended hend
  · rename_i hend
    have hend := Bool.eq_false_iff.2 hend
    split
    · rename_i hexpecting
      split
      · rename_i hread
        exact .noOperand hend hexpecting hread
      · rename_i hread
        exact .comparison hend hexpecting hread
      · rename_i hread
        exact .group hend hexpecting hread
    · rename_i hexpecting
      have hexpecting := Bool.eq_false_iff.2 hexpecting
      split
      · rename_i hread
        exact .noConnective hend hexpecting hread
      · rename_i hread
        split
        · rename_i hjoin
          exact .refused hend hexpecting hread hjoin
        · rename_i hjoin
          exact .connective hend hexpecting hread hjoin

/-- Reading a level is one pass, and then reading goes on. -/
theorem parse_eq (level : Level) (c : Cursor) :
    level.parse c =
      match level.pass c with
      | .ended result => result
      | .failed e => .error e
      | .read _ level next => level.parse next
      | .group inside next =>
        match start.parse inside with
        | .error e => .error e
        | .ok e => (level.push e).parse next := by
  generalize hpass : level.pass c = outcome
  cases passed_of_pass hpass with
  | ended hend => exact parse_of_atEnd hend
  | noOperand hend hexpecting hread => exact parse_of_operand_error hexpecting hend hread
  | comparison hend hexpecting hread => exact parse_of_comparison hexpecting hend hread
  | @group inside next hend hexpecting hread =>
    cases hinside : start.parse inside with
    | error e => simpa [hinside] using parse_of_group_error hexpecting hend hread hinside
    | ok e => simpa [hinside] using parse_of_group hexpecting hend hread hinside
  | noConnective hend hexpecting hread => exact parse_of_connective_error hexpecting hend hread
  | refused hend hexpecting hread hjoin => exact parse_of_join_error hexpecting hend hread hjoin
  | connective hend hexpecting hread hjoin => exact parse_of_connective hexpecting hend hread hjoin

/-! ## Pass after pass -/

/-- The passes over the level at `c` come to a place where these parts have been read. -/
inductive Reaches (c : Cursor) : List Part → Level → Cursor → Prop where
  /-- Nothing is read before the first pass. -/
  | start : Reaches c [] start c
  /-- A pass reads a comparison or a connective. -/
  | read {parts : List Part} {level level' : Level} {here next : Cursor} {part : Part}
      (h : Reaches c parts level here) (hpass : level.pass here = .read part level' next) :
      Reaches c (parts ++ [part]) level' next
  /-- A pass cuts out a group that can be read. -/
  | group {parts : List Part} {level : Level} {here inside next : Cursor} {e : Expression}
      (h : Reaches c parts level here) (hpass : level.pass here = .group inside next)
      (hinside : Level.start.parse inside = .ok e) :
      Reaches c (parts ++ [.operand e]) (level.push e) next

/-- While the level at `c` is read, a level is begun here. -/
inductive Begins (c : Cursor) : Cursor → Prop where
  /-- The level itself. -/
  | self : Begins c c
  /-- The inside of a group. -/
  | group {parts : List Part} {level : Level} {outer here inside next : Cursor}
      (h : Begins c outer) (hreaches : Reaches outer parts level here)
      (hpass : level.pass here = .group inside next) : Begins c inside

/-- Where the passes have come to, the rest of the level decides what is read. -/
theorem Reaches.parse_eq {c here : Cursor} {parts : List Part} {level : Level}
    (h : Reaches c parts level here) : Level.start.parse c = level.parse here := by
  induction h with
  | start => rfl
  | read _ hpass ih => rw [ih, Level.parse_eq, hpass]
  | group _ hpass hinside ih => rw [ih, Level.parse_eq, hpass]; simp only [hinside]

/-- If reading fails in a level that is begun, it fails. -/
theorem Begins.parse_eq_error {c inside : Cursor} {e : ParseError} (h : Begins c inside)
    (hinside : Level.start.parse inside = .error e) : Level.start.parse c = .error e := by
  induction h with
  | self => exact hinside
  | group _ hreaches hpass ih =>
    refine ih ?_
    rw [hreaches.parse_eq, Level.parse_eq, hpass]
    simp only [hinside]

end Eligibility.Level
