import Eligibility.Scan

/-!
# Groups in parentheses

A group is found before it is read: the search for its closing parenthesis counts the parentheses
that open and close, and jumps over quoted strings. A quote opens a string only at the start of the
group and after a delimiter or a comma, for there a token or a list element starts; elsewhere, as
in `O'Brien`, it is an ordinary character.
-/

namespace Eligibility

/-- The state of the search for the parenthesis that closes a group. -/
structure GroupSearch where
  /-- Where the search has come to. -/
  cursor : Cursor
  /-- How many parentheses are open. -/
  depth : Nat
  /-- The character before the cursor, none at the start of the group. -/
  previous : Option Char

namespace GroupSearch

/-- What one step of the search comes to. -/
inductive Outcome where
  /-- The search goes on. -/
  | more (next : GroupSearch)
  /-- The cursor stands on the closing parenthesis. -/
  | found (closing : Cursor)
  /-- There is none. -/
  | failed (error : ParseError) (stopped : Cursor)

/-- Whether a quote opens a string after this character. -/
def mayQuoteAfter (previous : Option Char) : Bool :=
  previous.all fun c => isDelimiter c || c == ','

/-- The search at the inside of a group that has just been opened. -/
def start (c : Cursor) : GroupSearch := ⟨c, 1, none⟩

/-- One step: over a parenthesis, a quoted string or any other character. -/
def step (opening : Nat) (s : GroupSearch) : Outcome :=
  match s.cursor.current? with
  | none => .failed (.unmatchedParenthesis opening) s.cursor
  | some c =>
    if c = '(' then .more ⟨s.cursor.advance, s.depth + 1, some c⟩
    else if c = ')' then
      if s.depth - 1 = 0 then .found s.cursor else .more ⟨s.cursor.advance, s.depth - 1, some c⟩
    else if isQuote c && mayQuoteAfter s.previous then
      match Scan.readQuoted c s.cursor with
      | .ok _ next => .more ⟨next, s.depth, some c⟩
      | .error e stopped => .failed e stopped
    else .more ⟨s.cursor.advance, s.depth, some c⟩

theorem length_step_lt {opening : Nat} {s next : GroupSearch}
    (h : s.step opening = .more next) : next.cursor.rest.length < s.cursor.rest.length := by
  unfold step at h
  split at h
  · cases h
  · rename_i c heq
    have hlt := Cursor.length_advance_lt (Cursor.rest_ne_nil_of_current? heq)
    split at h
    · cases h; exact hlt
    · split at h
      · split at h
        · cases h
        · cases h; exact hlt
      · split at h
        · split at h
          · rename_i hq
            cases h; exact Scan.advances_readQuoted _ _ _ _ hq
          · cases h
        · cases h; exact hlt

/-- Searches on until the closing parenthesis is found, or cannot be. -/
def run (opening : Nat) (s : GroupSearch) : EStateM.Result ParseError Cursor Cursor :=
  match _h : s.step opening with
  | .more next => run opening next
  | .found closing => .ok closing closing
  | .failed e stopped => .error e stopped
termination_by s.cursor.rest.length
decreasing_by exact length_step_lt _h

/-- The search ends on a character of the text it started on. -/
theorem length_of_run {opening : Nat} {s : GroupSearch} {closing after : Cursor}
    (h : s.run opening = .ok closing after) :
    closing.rest ≠ [] ∧ closing.rest.length ≤ s.cursor.rest.length := by
  fun_induction run opening s with
  | case1 s next hstep ih =>
    have := ih h
    have := length_step_lt hstep
    exact ⟨by simp_all, by omega⟩
  | case2 s found hstep =>
    cases h
    unfold step at hstep
    split at hstep
    · cases hstep
    · rename_i c heq
      have hne := Cursor.rest_ne_nil_of_current? heq
      split at hstep
      · cases hstep
      · split at hstep
        · split at hstep
          · cases hstep; exact ⟨hne, Nat.le_refl _⟩
          · cases hstep
        · split at hstep
          · split at hstep <;> cases hstep
          · cases hstep
  | case3 => cases h

end GroupSearch

/-- Reads a group, with the cursor after its opening parenthesis: moves past the parenthesis that
closes the group, and gives the text between the two as a cursor of its own. -/
def Scan.readGroup : Scan Cursor := fun c =>
  match (GroupSearch.start c).run (c.offset - 1) with
  | .ok closing _ =>
    .ok ⟨c.rest.take (c.rest.length - closing.rest.length), c.offset⟩ closing.advance
  | .error e stopped => .error e stopped

/-- The inside of a group and what follows the group are both shorter than the text they are
read from. -/
theorem Scan.length_readGroup_lt {c inside next : Cursor} (h : readGroup c = .ok inside next) :
    inside.rest.length < c.rest.length ∧ next.rest.length < c.rest.length := by
  unfold readGroup at h
  split at h
  · rename_i closing after hrun
    obtain ⟨hne, hle⟩ := GroupSearch.length_of_run hrun
    have hpos : 0 < closing.rest.length := List.length_pos_iff.2 hne
    have := Cursor.length_advance_lt hne
    simp only [GroupSearch.start] at hle
    cases h
    simp only [List.length_take]
    omega
  · cases h

end Eligibility
