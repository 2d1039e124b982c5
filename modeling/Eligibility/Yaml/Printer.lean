import Eligibility.Characters
import Eligibility.Yaml.Characters
import Eligibility.Yaml.Resolution

/-!
# Writing YAML scalars

A scalar is written plain if it is read back as the same string then; otherwise between single
quotes, or, if it has characters that cannot stand there, between double quotes with escapes. A
scalar with a line feed becomes a literal block. No line is folded.

Scalars are written inside a mapping whose keys are indented by two blanks; lines of their own are
indented by four.
-/

namespace Eligibility.Yaml

/-! ## What a text admits -/

/-- The characters that stand for themselves. -/
def isPrintable (c : Char) : Bool :=
  let n := c.toNat
  n == 0x0A || (0x20 ≤ n && n ≤ 0x7E) || (0xA0 ≤ n && n ≤ 0xD7FF) ||
    (0xE000 ≤ n && n ≤ 0xFFFD && n != 0xFEFF) || 0x10000 ≤ n

/-- The characters that end a line in some text. -/
def endsLine (c : Char) : Bool := isBreak c || c == '\r' || c == '\u0085'

/-- The marks that cannot start a plain scalar. -/
def isIndicator (c : Char) : Bool := "#,[]\x7b\x7d&*!|>'\"%@\x60".toList.contains c

/-- Whether a text starts with something that has a meaning of its own. -/
def startsWithIndicator : List Char → Bool
  | [] => false
  | c :: rest => isIndicator c || ((c == '?' || c == '-') && atSpacing rest)

/-- Whether a text has a colon before spacing, or a number sign after a blank. -/
def hasIndicator : List Char → Bool
  | [] => false
  | c :: rest =>
    (c == ':' && atSpacing rest) || (isSpacing c && rest.head? == some '#') || hasIndicator rest

/-- Whether a text starts like a mark between documents. -/
def startsLikeMark : List Char → Bool
  | a :: b :: c :: _ => (a == '-' || a == '.') && b == a && c == a
  | _ => false

/-- Whether a blank stands before a line break. -/
def hasBlankBeforeBreak : List Char → Bool
  | [] => false
  | c :: rest => (c == ' ' && rest.head?.any isBreak) || hasBlankBeforeBreak rest

/-- Whether a blank stands after a line break. -/
def hasBlankAfterBreak : List Char → Bool
  | [] => false
  | c :: rest => (isBreak c && rest.head? == some ' ') || hasBlankAfterBreak rest

/-- Whether a text can be a plain scalar. -/
def admitsPlain (text : List Char) : Bool :=
  text.all isPrintable && !text.any isBreak && text.head? != some ' ' &&
    text.getLast? != some ' ' && !startsWithIndicator text && !hasIndicator text &&
    !startsLikeMark text

/-- Whether a text can stand between single quotes. -/
def admitsSingle (text : List Char) : Bool :=
  text.all isPrintable && !hasBlankBeforeBreak text && !hasBlankAfterBreak text

/-- Whether a text can be a literal block. -/
def admitsLiteral (text : List Char) : Bool :=
  text.all isPrintable && !hasBlankBeforeBreak text && text.getLast? != some ' '

/-- A form of scalars. -/
inductive Style where
  /-- Without marks. -/
  | plain
  /-- Between single quotes. -/
  | single
  /-- Between double quotes. -/
  | double
  /-- As a literal block. -/
  | literal
deriving DecidableEq

/-- The form in which a text is written. -/
def Style.of (text : String) : Style :=
  let chars := text.toList
  if chars.contains '\n' then (if admitsLiteral chars then .literal else .double)
  else if !looksTyped text && admitsPlain chars then .plain
  else if admitsSingle chars then .single
  else .double

/-! ## Writing -/

/-- The blanks at the start of a line of a scalar. -/
def indentation : List Char := [' ', ' ', ' ', ' ']

/-- The inside of a scalar between single quotes. A line break is followed by the blanks of the next
line. -/
def singleText (afterBreak : Bool) : List Char → List Char
  | [] => if afterBreak then indentation else []
  | c :: rest =>
    if isBreak c then c :: singleText true rest
    else
      (if afterBreak then indentation else []) ++
        (if c = '\'' then ['\'', '\''] else [c]) ++ singleText false rest

/-- The letters that are written for characters after a backslash. -/
def escapeLetters : List (Char × Char) :=
  [('\x00', '0'), ('\x07', 'a'), ('\x08', 'b'), ('\t', 't'), ('\n', 'n'), ('\x0b', 'v'),
    ('\x0c', 'f'), ('\r', 'r'), ('\x1b', 'e'), ('"', '"'), ('\\', '\\'), ('\u0085', 'N'),
    ('\u2028', 'L'), ('\u2029', 'P')]

/-- A character as a number in an escape. -/
def escapedNumber (n : Nat) : List Char :=
  if n ≤ 0xFF then 'x' :: Hexadecimal.digits Hexadecimal.upperDigit 2 n
  else if n ≤ 0xFFFF then 'u' :: Hexadecimal.digits Hexadecimal.upperDigit 4 n
  else 'U' :: Hexadecimal.digits Hexadecimal.upperDigit 8 n

/-- A character between double quotes. -/
def escapedChar (c : Char) : List Char :=
  match escapeLetters.lookup c with
  | some letter => ['\\', letter]
  | none => if isPrintable c then [c] else '\\' :: escapedNumber c.toNat

/-- The lines of a literal block. Lines without content are not indented. -/
def literalText (atStart : Bool) : List Char → List Char
  | [] => []
  | c :: rest =>
    if isBreak c then c :: literalText true rest
    else (if atStart then indentation else []) ++ c :: literalText false rest

/-- The header of a literal block, after its indicator: the indentation where it does not show, and
what becomes of the line breaks at the end. -/
def literalHints (text : List Char) : List Char :=
  (if text.head?.any fun c => c == ' ' || isBreak c then ['2'] else []) ++
    match text.reverse with
    | [] => ['-']
    | last :: before =>
      if !isBreak last then ['-']
      else if before.head?.all isBreak then ['+']
      else []

/-- A text in a form. -/
def Style.write (style : Style) (text : List Char) : List Char :=
  match style with
  | .plain => text
  | .single => '\'' :: singleText false text ++ ['\'']
  | .double => '"' :: text.flatMap escapedChar ++ ['"']
  | .literal => '|' :: literalHints text ++ '\n' :: literalText true text

/-- A text as a scalar. -/
def scalarText (text : String) : List Char := (Style.of text).write text.toList

/-- What ends the line of a scalar, unless the scalar does so itself. -/
def lineEnd (text : String) : List Char :=
  if Style.of text = .literal && text.toList.getLast?.any isBreak then [] else ['\n']

/-- The greatest number of bytes in a key that is written on the line of its value. -/
def maxKeyBytes : Nat := 128

/-- Whether a key is written on the line of its value. -/
def isSimpleKey (text : String) : Bool :=
  !text.toList.any endsLine && byteLength text.toList ≤ maxKeyBytes

/-- An entry of a mapping whose keys are indented by two blanks. -/
def entryText (key value : String) : List Char :=
  (if isSimpleKey key then ' ' :: ' ' :: scalarText key ++ [':', ' ']
    else ' ' :: ' ' :: '?' :: ' ' :: scalarText key ++ lineEnd key ++ [' ', ' ', ':', ' ']) ++
    scalarText value ++ lineEnd value

end Eligibility.Yaml
