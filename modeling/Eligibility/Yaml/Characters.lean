/-!
# Characters of YAML

A YAML text has no control characters but tabs and line breaks. Line breaks of every usual kind are
made line feeds before anything else happens; the line separator and the paragraph separator end
lines too, but stay what they are.

Where a scalar goes over several lines, the run of blanks and line breaks between two words is
folded.
-/

namespace Eligibility.Yaml

/-- The characters that a text may hold. -/
def isAllowed (c : Char) : Bool :=
  let n := c.toNat
  n == 0x09 || n == 0x0A || n == 0x0D || (0x20 ≤ n && n ≤ 0x7E) || n == 0x85 ||
    (0xA0 ≤ n && n ≤ 0xD7FF) || (0xE000 ≤ n && n ≤ 0xFFFD) || 0x10000 ≤ n

/-- A text in which every line break is one character. -/
def normalizeBreaks : List Char → List Char
  | [] => []
  | '\r' :: '\n' :: rest => '\n' :: normalizeBreaks rest
  | c :: rest => (if c = '\r' || c = '\u0085' then '\n' else c) :: normalizeBreaks rest

/-- The line breaks. -/
def isBreak (c : Char) : Bool := c == '\n' || c == '\u2028' || c == '\u2029'

/-- The blanks inside a line. -/
def isBlank (c : Char) : Bool := c == ' ' || c == '\t'

/-- Blanks and line breaks. -/
def isSpacing (c : Char) : Bool := isBlank c || isBreak c

/-- Whether a text starts with spacing, or is at its end. -/
def atSpacing (text : List Char) : Bool := text.head?.all isSpacing

/-- Whether a text is at the end of a line, or at its own end. -/
def atLineEnd (text : List Char) : Bool := text.head?.all isBreak

/-- The characters of names. -/
def isNameChar (c : Char) : Bool :=
  ('a' ≤ c && c ≤ 'z') || ('A' ≤ c && c ≤ 'Z') || ('0' ≤ c && c ≤ '9') || c == '_' || c == '-'

/-- Whether three equal marks at the start of a text stand alone there; at the start of a line they
would be the mark between two documents. -/
def startsWithMarks (mark : Char) : List Char → Bool
  | a :: b :: c :: rest => a == mark && b == mark && c == mark && atSpacing rest
  | _ => false

/-- Whether a text that is at the start of a line starts with a mark between documents. -/
def atDocumentMark (text : List Char) : Bool :=
  startsWithMarks '-' text || startsWithMarks '.' text

/-! ## Folding -/

/-- What a run of spacing stands for inside a scalar: blanks on a line stand for themselves, a
single line feed for a blank, and of several line breaks the first is left out if it is a line
feed. -/
def folded (run : List Char) : List Char :=
  match run.filter isBreak with
  | [] => run
  | first :: others =>
    if first = '\n' then (if others.isEmpty then [' '] else others) else first :: others

/-- Whether a run of spacing has a line break. -/
def hasBreak (run : List Char) : Bool := run.any isBreak

/-- The number of blanks after the last line break of a run. -/
def lastColumn (run : List Char) : Nat := (run.reverse.takeWhile isBlank).length

/-- Whether some tab stands before the given column on a line; the first line counts from a column
of its own. -/
def tabBefore (indent : Nat) (column : Nat) : List Char → Bool
  | [] => false
  | c :: run =>
    if isBreak c then tabBefore indent 0 run
    else (c == '\t' && column < indent) || tabBefore indent (column + 1) run

/-- Whether a run of spacing has a tab before the given column of a new line. -/
def tabInIndentation (indent : Nat) (run : List Char) : Bool :=
  tabBefore indent indent (run.dropWhile isBlank)

/-- A run of spacing at the start of a text. -/
def spacing (text : List Char) : List Char := text.takeWhile isSpacing

/-- What follows the spacing at the start of a text. -/
def afterSpacing (text : List Char) : List Char := text.dropWhile isSpacing

theorem length_afterSpacing_le (text : List Char) : (afterSpacing text).length ≤ text.length :=
  (List.dropWhile_sublist isSpacing).length_le

/-- A text that starts with spacing has less after it. -/
theorem length_afterSpacing_lt {c : Char} {text : List Char} (h : isSpacing c = true) :
    (afterSpacing (c :: text)).length < (c :: text).length := by
  have := length_afterSpacing_le text
  unfold afterSpacing at *
  simp only [List.dropWhile_cons, h, if_true, List.length_cons]
  omega

end Eligibility.Yaml
