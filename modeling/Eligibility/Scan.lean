import Eligibility.Cursor
import Eligibility.Keyword
import Eligibility.ParseError

/-!
# Scans

A `Scan` moves a cursor and gives a result. It may fail, and then too the cursor stands where
reading stopped. Here are the scans that know blanks, quoted strings and tokens.

Loops over scans end because of two properties that sequencing keeps: a scan that is `Forward`
leaves no more text than it found, and one that `Advances` leaves less.
-/

namespace Eligibility

/-- A computation that reads from a cursor and may fail. -/
abbrev Scan (α : Type) := EStateM ParseError Cursor α

namespace Scan

variable {α β : Type}

/-! ## Sequencing -/

theorem bind_ok {x : Scan α} {f : α → Scan β} {c next : Cursor} {a : α}
    (h : x c = .ok a next) : (x >>= f) c = f a next := by
  simp [bind, EStateM.bind, h]

theorem bind_error {x : Scan α} {f : α → Scan β} {c next : Cursor} {e : ParseError}
    (h : x c = .error e next) : (x >>= f) c = .error e next := by
  simp [bind, EStateM.bind, h]

theorem bind_get {f : Cursor → Scan β} {c : Cursor} : (get >>= f) c = f c c := rfl

theorem map_ok {x : Scan α} {f : α → β} {c next : Cursor} {a : α}
    (h : x c = .ok a next) : (f <$> x) c = .ok (f a) next := by
  simp [Functor.map, EStateM.map, h]

theorem map_error {x : Scan α} {f : α → β} {c next : Cursor} {e : ParseError}
    (h : x c = .error e next) : (f <$> x) c = .error e next := by
  simp [Functor.map, EStateM.map, h]

/-- A scan never moves backwards. -/
def Forward (x : Scan α) : Prop :=
  ∀ c a next, x c = .ok a next → next.rest.length ≤ c.rest.length

/-- A scan that succeeds has moved over a character. -/
def Advances (x : Scan α) : Prop :=
  ∀ c a next, x c = .ok a next → next.rest.length < c.rest.length

theorem Advances.forward {x : Scan α} (h : Advances x) : Forward x :=
  fun c a next hx => Nat.le_of_lt (h c a next hx)

theorem Forward.pure (a : α) : Forward (pure a) := by
  intro c b next h
  cases h
  exact Nat.le_refl _

theorem Forward.throw (e : ParseError) : Forward (throw e : Scan α) := by
  intro c b next h
  cases h

theorem Forward.get : Forward (get : Scan Cursor) := by
  intro c a next h
  cases h
  exact Nat.le_refl _

theorem Forward.bind {x : Scan α} {f : α → Scan β} (hx : Forward x) (hf : ∀ a, Forward (f a)) :
    Forward (x >>= f) := by
  intro c b next h
  cases hxc : x c with
  | ok a mid =>
    rw [bind_ok hxc] at h
    exact Nat.le_trans (hf a mid b next h) (hx c a mid hxc)
  | error e mid =>
    rw [bind_error hxc] at h
    cases h

theorem Advances.bind {x : Scan α} {f : α → Scan β} (hx : Advances x)
    (hf : ∀ a, Forward (f a)) : Advances (x >>= f) := by
  intro c b next h
  cases hxc : x c with
  | ok a mid =>
    rw [bind_ok hxc] at h
    exact Nat.lt_of_le_of_lt (hf a mid b next h) (hx c a mid hxc)
  | error e mid =>
    rw [bind_error hxc] at h
    cases h

theorem Forward.bind_advances {x : Scan α} {f : α → Scan β} (hx : Forward x)
    (hf : ∀ a, Advances (f a)) : Advances (x >>= f) := by
  intro c b next h
  cases hxc : x c with
  | ok a mid =>
    rw [bind_ok hxc] at h
    exact Nat.lt_of_lt_of_le (hf a mid b next h) (hx c a mid hxc)
  | error e mid =>
    rw [bind_error hxc] at h
    cases h

theorem Forward.map {x : Scan α} (hx : Forward x) (f : α → β) : Forward (f <$> x) := by
  intro c b next h
  cases hxc : x c with
  | ok a mid =>
    rw [map_ok hxc] at h
    cases h
    exact hx c a next hxc
  | error e mid =>
    rw [map_error hxc] at h
    cases h

theorem Advances.map {x : Scan α} (hx : Advances x) (f : α → β) : Advances (f <$> x) := by
  intro c b next h
  cases hxc : x c with
  | ok a mid =>
    rw [map_ok hxc] at h
    cases h
    exact hx c a next hxc
  | error e mid =>
    rw [map_error hxc] at h
    cases h

/-! ## Blanks and stretches of text -/

/-- Moves over blanks, and fails if nothing follows them. -/
def skipSpace : Scan Unit := fun c =>
  let c := c.skipBlanks
  if c.isAtEnd then .error .noToken c else .ok () c

/-- Reads up to the first character that satisfies a condition. If the text has none, all of it is
read; this is a failure if such a character is required. -/
def takeUntil (stop : Char → Bool) (required : Bool) : Scan String := fun c =>
  let next := c.skipWhile (!stop ·)
  if required && next.isAtEnd then .error .noToken next
  else .ok (String.ofList (c.rest.takeWhile (!stop ·))) next

/-- Reads a quoted string, with the cursor on its opening quote. -/
def readQuoted (quote : Char) : Scan String := fun c =>
  match unquote quote c.advance.rest with
  | some (text, rest) => .ok (String.ofList text) (c.advanceTo rest)
  | none => .error (.unmatchedQuote quote c.offset) c.toEnd

/-- Fails at the character under the cursor. -/
def unexpected : Scan α := fun c =>
  match c.current? with
  | none => .error .noToken c
  | some d => .error (.unexpectedCharacter d c.offset) c

theorem forward_skipSpace : Forward skipSpace := by
  intro c a next h
  unfold skipSpace at h
  dsimp only at h
  split at h
  · cases h
  · cases h
    exact c.length_skipBlanks_le

theorem forward_takeUntil (stop : Char → Bool) (required : Bool) :
    Forward (takeUntil stop required) := by
  intro c a next h
  unfold takeUntil at h
  dsimp only at h
  split at h
  · cases h
  · cases h
    exact c.length_skipWhile_le _

theorem advances_readQuoted (quote : Char) : Advances (readQuoted quote) := by
  intro c a next h
  unfold readQuoted at h
  split at h
  · rename_i inner rest heq
    cases h
    exact Nat.lt_of_lt_of_le (length_unquote_lt heq) c.length_advance_le
  · cases h

theorem forward_unexpected : Forward (unexpected : Scan α) := by
  intro c a next h
  unfold unexpected at h
  split at h <;> cases h

theorem advances_unexpected : Advances (unexpected : Scan α) := by
  intro c a next h
  unfold unexpected at h
  split at h <;> cases h

end Scan

/-! ## Tokens -/

/-- A token of a rule text. -/
structure Token where
  /-- The characters of the token, for a quoted string those it stands for. -/
  text : String
  /-- Whether the token was written between quotes. -/
  quoted : Bool
  /-- The byte offset of the first character of the token, its opening quote included. -/
  offset : Nat
deriving DecidableEq

namespace Token

/-- Whether nothing was read. A quoted string is never nothing, even if it holds no character. -/
def isEmpty (t : Token) : Bool := !t.quoted && t.text == ""

/-- Whether the token spells a keyword, in any case. Quoted strings are never keywords. -/
def isKeyword (t : Token) (keyword : String) : Bool := !t.quoted && sameWord t.text keyword

end Token

namespace Scan

/-- Reads the next token: a quoted string, or the characters up to the next delimiter. The latter
are none if a delimiter stands right here. -/
def readToken : Scan Token := do
  skipSpace
  let start ← get
  match start.current?.filter isQuote with
  | some quote =>
    let text ← readQuoted quote
    return ⟨text, true, start.offset⟩
  | none =>
    let text ← takeUntil isDelimiter false
    return ⟨text, false, start.offset⟩

/-- Reads a token that is not empty. -/
def readWord : Scan Token := do
  let token ← readToken
  if token.isEmpty then unexpected else return token

theorem forward_readToken : Forward readToken := by
  refine forward_skipSpace.bind fun _ => Forward.get.bind fun start => ?_
  split
  · exact (advances_readQuoted _).forward.bind fun _ => Forward.pure _
  · exact (forward_takeUntil _ _).bind fun _ => Forward.pure _

/-- Only an empty token is read without moving. -/
theorem length_readToken_lt {c next : Cursor} {token : Token} (h : readToken c = .ok token next)
    (hne : token.isEmpty = false) : next.rest.length < c.rest.length := by
  unfold readToken at h
  cases hs : skipSpace c with
  | error e mid =>
    rw [bind_error hs] at h
    cases h
  | ok _ mid =>
    rw [bind_ok hs, bind_get] at h
    refine Nat.lt_of_lt_of_le ?_ (forward_skipSpace _ _ _ hs)
    cases hquote : mid.current?.filter isQuote with
    | some quote =>
      rw [hquote] at h
      exact ((advances_readQuoted _).bind fun _ => Forward.pure _) _ _ _ h
    | none =>
      rw [hquote] at h
      cases h
      have hsplit := List.takeWhile_append_dropWhile (p := (!isDelimiter ·)) (l := mid.rest)
      cases htaken : mid.rest.takeWhile (!isDelimiter ·) with
      | nil => simp [Token.isEmpty, htaken] at hne
      | cons d taken =>
        have hlen := congrArg List.length hsplit
        simp only [htaken, List.length_append, List.length_cons] at hlen
        simp only [Cursor.skipWhile]
        omega

theorem forward_readWord : Forward readWord := by
  refine forward_readToken.bind fun token => ?_
  split
  · exact forward_unexpected
  · exact Forward.pure _

end Scan

end Eligibility
