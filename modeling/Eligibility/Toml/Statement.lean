import Eligibility.Toml.Token

/-!
# TOML statements

A TOML document is a list of lines, each with a statement or without. Understood here are headers,
and keys with a string or with an inline table of strings; a text with any other value, or with a
header in double brackets, is refused as a whole. A key is a path of parts with dots between them.

The statements are put together from the left, one token at a time.
-/

namespace Eligibility.Toml

/-- A value. -/
inductive Value where
  /-- A string. -/
  | string (text : String)
  /-- An inline table: the paths of its entries with their strings. -/
  | table (entries : List (List String × String))
deriving DecidableEq

/-- A statement. -/
inductive Statement where
  /-- The header of a table. -/
  | header (path : List String)
  /-- A key with its value. -/
  | pair (path : List String) (value : Value)
deriving DecidableEq

/-- What a key belongs to. -/
inductive Owner where
  /-- A header. -/
  | header
  /-- A statement of its own. -/
  | pair
  /-- An entry of the inline table that is the value of a key, after some other entries. -/
  | entry (path : List String) (entries : List (List String × String))

/-- What may come next, inside a statement. -/
inductive Phase where
  /-- The start of a line. -/
  | lineStart
  /-- A part of a key, after some parts. -/
  | part (owner : Owner) (path : List String)
  /-- What follows a part of a key. -/
  | afterPart (owner : Owner) (path : List String)
  /-- A value. -/
  | value (path : List String)
  /-- The string of an entry of an inline table. -/
  | entryValue (path : List String) (entries : List (List String × String)) (key : List String)
  /-- An entry of an inline table, or the end of the table. -/
  | entry (path : List String) (entries : List (List String × String))
  /-- What follows an entry of an inline table. -/
  | afterEntry (path : List String) (entries : List (List String × String))
  /-- The end of a line. -/
  | lineEnd

/-- Some statements, and what may come next. -/
structure Builder where
  /-- The complete statements. -/
  statements : List Statement
  /-- What may come next. -/
  phase : Phase

namespace Builder

/-- The builder before a text. -/
def start : Builder := ⟨[], .lineStart⟩

/-- The same statements, with something else to come. -/
def expect (b : Builder) (phase : Phase) : Option Builder := some { b with phase }

/-- One more statement, which ends its line. -/
def complete (b : Builder) (s : Statement) : Option Builder := some ⟨b.statements ++ [s], .lineEnd⟩

/-- Takes the token after a part of a key. -/
def afterPart (b : Builder) (owner : Owner) (path : List String) (token : Token) :
    Option Builder :=
  if token = .dot then b.expect (.part owner path)
  else
    match owner with
    | .header => if token = .closeBracket then b.complete (.header path) else none
    | .pair => if token = .equals then b.expect (.value path) else none
    | .entry outer entries =>
      if token = .equals then b.expect (.entryValue outer entries path) else none

/-- Takes one more token. -/
def step (b : Builder) (token : Token) : Option Builder :=
  match b.phase with
  | .lineStart =>
    match token with
    | .lineBreak => some b
    | .openBracket => b.expect (.part .header [])
    | .word text | .string text => b.expect (.afterPart .pair [text])
    | _ => none
  | .part owner path =>
    match token with
    | .word text | .string text => b.expect (.afterPart owner (path ++ [text]))
    | _ => none
  | .afterPart owner path => b.afterPart owner path token
  | .value path =>
    match token with
    | .string text | .longString text => b.complete (.pair path (.string text))
    | .openBrace => b.expect (.entry path [])
    | _ => none
  | .entryValue path entries key =>
    match token with
    | .string text | .longString text => b.expect (.afterEntry path (entries ++ [(key, text)]))
    | _ => none
  | .entry path entries =>
    match token with
    | .lineBreak => some b
    | .word text | .string text => b.expect (.afterPart (.entry path entries) [text])
    | .closeBrace => b.complete (.pair path (.table entries))
    | _ => none
  | .afterEntry path entries =>
    match token with
    | .lineBreak => some b
    | .comma => b.expect (.entry path entries)
    | .closeBrace => b.complete (.pair path (.table entries))
    | _ => none
  | .lineEnd => if token = .lineBreak then b.expect .lineStart else none

/-- The statements, if the last one is complete. -/
def result? (b : Builder) : Option (List Statement) :=
  match b.phase with
  | .lineStart | .lineEnd => some b.statements
  | _ => none

end Builder

/-- The statements that tokens denote. -/
def statementsOf (tokens : List Token) : Option (List Statement) := do
  let b ← tokens.foldlM Builder.step .start
  b.result?

/-- The statements of a text. -/
def statements (text : String) : Option (List Statement) := do
  let tokens ← tokens (dropMark text.toList)
  statementsOf tokens

end Eligibility.Toml
