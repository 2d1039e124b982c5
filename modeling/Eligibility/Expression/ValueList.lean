import Eligibility.Scan

/-!
# Lists of values

A list of values stands in parentheses, its elements between commas. An element is a quoted string,
or the text up to the next comma or closing parenthesis, trimmed. Such a text may hold quotes and
blanks, and it may be empty; only the list `()` as a whole may not.
-/

namespace Eligibility.Scan

/-- Reads one element of the list of values that opens at the given offset. -/
def readValue (opening : Nat) (first : Bool) : Scan String := fun c =>
  let c := c.skipBlanks
  match c.current? with
  | none => .error (.unmatchedParenthesis opening) c
  | some d =>
    if first && d == ')' then .error (.emptyValueList opening) c
    else if isQuote d then readQuoted d c
    else (trim <$> takeUntil (fun d => d == ',' || d == ')') false) c

/-- What stands after an element of a list of values. -/
inductive AfterValue where
  /-- A comma: another element follows. -/
  | comma
  /-- The parenthesis that closes the list. -/
  | closing
deriving DecidableEq

/-- Reads what follows an element of the list of values that opens at the given offset. -/
def readAfterValue (opening : Nat) : Scan AfterValue := fun c =>
  let c := c.skipBlanks
  match c.current? with
  | none => .error (.unmatchedParenthesis opening) c
  | some d =>
    if d = ',' then .ok .comma c.advance
    else if d = ')' then .ok .closing c.advance
    else .error (.unexpectedCharacter d c.offset) c

/-- Reads one element of a list of values and what follows it. -/
def readElement (opening : Nat) (first : Bool) : Scan (String × AfterValue) := do
  let value ← readValue opening first
  let after ← readAfterValue opening
  return (value, after)

theorem forward_readValue (opening : Nat) (first : Bool) : Forward (readValue opening first) := by
  intro c a next h
  unfold readValue at h
  dsimp only at h
  refine Nat.le_trans ?_ c.length_skipBlanks_le
  split at h
  · cases h
  · split at h
    · cases h
    · split at h
      · exact (advances_readQuoted _).forward _ _ _ h
      · exact (forward_takeUntil _ _).map _ _ _ _ h

theorem advances_readAfterValue (opening : Nat) : Advances (readAfterValue opening) := by
  intro c a next h
  unfold readAfterValue at h
  dsimp only at h
  refine Nat.lt_of_lt_of_le ?_ c.length_skipBlanks_le
  split at h
  · cases h
  · rename_i d hd
    have hlt := Cursor.length_advance_lt (Cursor.rest_ne_nil_of_current? hd)
    split at h
    · cases h; exact hlt
    · split at h
      · cases h; exact hlt
      · cases h

theorem advances_readElement (opening : Nat) (first : Bool) :
    Advances (readElement opening first) :=
  (forward_readValue _ _).bind_advances fun _ =>
    (advances_readAfterValue _).bind fun _ => Forward.pure _

/-- Reads elements of a list of values until the list is closed; some may be read already. -/
def readElements (opening : Nat) (values : List String) : Scan (List String) := fun c =>
  match _h : readElement opening values.isEmpty c with
  | .error e stopped => .error e stopped
  | .ok (value, .closing) next => .ok (values ++ [value]) next
  | .ok (value, .comma) next => readElements opening (values ++ [value]) next
termination_by c => c.rest.length
decreasing_by exact advances_readElement _ _ _ _ _ _h

/-- Reads a list of values, with the cursor on its opening parenthesis. -/
def readValueList : Scan (List String) := fun c => readElements c.offset [] c.advance

theorem advances_readElements (opening : Nat) (values : List String) :
    Advances (readElements opening values) := by
  intro c result next h
  fun_induction readElements opening values c with
  | case1 => cases h
  | case2 _ _ _ _ hel => cases h; exact advances_readElement _ _ _ _ _ hel
  | case3 _ _ _ _ hel ih => exact Nat.lt_trans (ih h) (advances_readElement _ _ _ _ _ hel)

theorem forward_readValueList : Forward readValueList := fun c _ _ h =>
  Nat.le_trans (Nat.le_of_lt (advances_readElements _ _ _ _ _ h)) c.length_advance_le

end Eligibility.Scan
