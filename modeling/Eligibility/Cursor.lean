import Eligibility.Characters

/-!
# Positions in a rule text

A `Cursor` stands somewhere in a rule text. It holds the text that is still unread and the byte
offset of that place in the whole text, so that a cursor over a fragment reports the same offsets
as one over the text it was cut from.
-/

namespace Eligibility

/-- A position in a rule text. -/
structure Cursor where
  /-- The unread text. -/
  rest : List Char
  /-- The byte offset of the unread text in the whole rule text. -/
  offset : Nat
deriving DecidableEq

namespace Cursor

/-- The cursor at the start of a text. -/
def ofString (text : String) : Cursor := ⟨text.toList, 0⟩

/-- The character under the cursor, none at the end of the text. -/
def current? (c : Cursor) : Option Char := c.rest.head?

/-- Whether all text is read. -/
def isAtEnd (c : Cursor) : Bool := c.rest.isEmpty

/-- Moves past one character, and stays at the end of the text. -/
def advance (c : Cursor) : Cursor :=
  match c.rest with
  | [] => c
  | d :: rest => ⟨rest, c.offset + d.utf8Size⟩

/-- Moves to where only the given end of the unread text is left. -/
def advanceTo (c : Cursor) (rest : List Char) : Cursor :=
  ⟨rest, c.offset + byteLength (c.rest.take (c.rest.length - rest.length))⟩

/-- Moves over the characters that satisfy a condition. -/
def skipWhile (c : Cursor) (p : Char → Bool) : Cursor :=
  ⟨c.rest.dropWhile p, c.offset + byteLength (c.rest.takeWhile p)⟩

/-- Moves over blanks. -/
def skipBlanks (c : Cursor) : Cursor := c.skipWhile isBlank

/-- Moves to the end of the text. -/
def toEnd (c : Cursor) : Cursor := c.advanceTo []

end Cursor

namespace Cursor

theorem length_advance_lt {c : Cursor} (h : c.rest ≠ []) :
    c.advance.rest.length < c.rest.length := by
  unfold advance
  split
  · contradiction
  · simp [*]

theorem length_advance_le (c : Cursor) : c.advance.rest.length ≤ c.rest.length := by
  unfold advance
  split <;> simp [*]

theorem length_skipWhile_le (c : Cursor) (p : Char → Bool) :
    (c.skipWhile p).rest.length ≤ c.rest.length :=
  (List.dropWhile_sublist p).length_le

theorem length_skipBlanks_le (c : Cursor) : c.skipBlanks.rest.length ≤ c.rest.length :=
  c.length_skipWhile_le isBlank

theorem rest_ne_nil_of_current? {c : Cursor} {d : Char} (h : c.current? = some d) :
    c.rest ≠ [] := by
  intro hnil
  simp [current?, hnil] at h

end Cursor

end Eligibility
