import Eligibility.Toml.Token

/-!
# Writing TOML strings and keys

Of the four forms of a string, the simplest is taken in which the text can stand as it is: between
double quotes, between single quotes, and then the same with three quotes. Only a text that has
room in none of them is escaped. A key that is a word needs no quotes, and is never written with
three.
-/

namespace Eligibility.Toml

/-- The characters that stand for themselves in no string. A line break can stand in a long string,
and a tab has an escape that needs no consideration. -/
def needsCode (c : Char) : Bool := isForbidden c && c != '\n'

/-- The greatest number of equal quotes that follow each other, when so many came right before. -/
def longestRunFrom (quote : Char) (before : Nat) : List Char → Nat
  | [] => before
  | c :: rest =>
    if c = quote then longestRunFrom quote (before + 1) rest
    else max before (longestRunFrom quote 0 rest)

/-- The greatest number of equal quotes that follow each other. -/
def longestRun (quote : Char) (text : List Char) : Nat := longestRunFrom quote 0 text

/-- The letters that are written for characters after a backslash. -/
def escapeLetters : List (Char × Char) :=
  [('\x08', 'b'), ('\t', 't'), ('\n', 'n'), ('\x0c', 'f'), ('\r', 'r'), ('\\', '\\')]

/-- A character in escaped form, where it has one. -/
def escaped (c : Char) : List Char :=
  match escapeLetters.lookup c with
  | some letter => ['\\', letter]
  | none =>
    if isForbidden c then '\\' :: 'u' :: Hexadecimal.digits Hexadecimal.upperDigit 4 c.toNat
    else [c]

/-- The inside of a basic string on one line. -/
def basicText (text : List Char) : List Char :=
  text.flatMap fun c => if c = '"' then ['\\', '"'] else escaped c

/-- The inside of a basic string on several lines, after so many quotes. Every third quote of a run
is escaped. -/
def longBasicText (quotes : Nat) : List Char → List Char
  | [] => []
  | c :: rest =>
    if c = '"' then
      if quotes < 2 then '"' :: longBasicText (quotes + 1) rest
      else '\\' :: '"' :: longBasicText 0 rest
    else if c = '\n' then '\n' :: longBasicText 0 rest
    else escaped c ++ longBasicText 0 rest

/-- A form of strings. -/
inductive Form where
  /-- Between double quotes. -/
  | basic
  /-- Between single quotes. -/
  | literal
  /-- Between three double quotes. -/
  | longBasic
  /-- Between three single quotes. -/
  | longLiteral
deriving DecidableEq

/-- A string in a form. A long string that has a line break starts on a line of its own. -/
def Form.write (form : Form) (text : List Char) : List Char :=
  let firstBreak := if text.contains '\n' then ['\n'] else []
  match form with
  | .basic => '"' :: basicText text ++ ['"']
  | .literal => '\'' :: text ++ ['\'']
  | .longBasic => ['"', '"', '"'] ++ firstBreak ++ longBasicText 0 text ++ ['"', '"', '"']
  | .longLiteral => ['\'', '\'', '\''] ++ firstBreak ++ text ++ ['\'', '\'', '\'']

/-- Whether a text needs no escape in a form. -/
def Form.admits (form : Form) (text : List Char) : Bool :=
  !text.any needsCode &&
    match form with
    | .basic => !text.contains '\n' && !text.contains '\\' && !text.contains '"'
    | .literal => !text.contains '\n' && !text.contains '\''
    | .longBasic => !text.contains '\\' && longestRun '"' text ≤ 2
    | .longLiteral => longestRun '\'' text ≤ 2

/-- The first of some forms that admits a text, or else the last resort. -/
def Form.choose (text : List Char) (resort : Form) : List Form → Form
  | [] => resort
  | form :: forms => if form.admits text then form else choose text resort forms

/-- The form in which a string is written as a value. -/
def Form.ofValue (text : List Char) : Form :=
  choose text (if text.contains '\n' then .longBasic else .basic)
    [.basic, .literal, .longBasic, .longLiteral]

/-- A string as a value. -/
def valueText (text : String) : List Char := (Form.ofValue text.toList).write text.toList

/-- A string as a key. -/
def keyText (text : String) : List Char :=
  let chars := text.toList
  if !chars.isEmpty && chars.all isWordChar then chars
  else (Form.choose chars .basic [.basic, .literal]).write chars

end Eligibility.Toml
