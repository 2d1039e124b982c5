import Eligibility.Hexadecimal
import Eligibility.Yaml.Characters

/-!
# YAML tokens

The tokens of a YAML text, and the readers of those that are neither scalars nor single characters:
directives, anchors, and tags. What a tag says does not matter here, but its handle must have been
declared.

Sequences have no tokens, and a text with a sequence is refused as a whole.
-/

namespace Eligibility.Yaml

/-- A token of a YAML text. -/
inductive Token where
  /-- A directive that gives the version of the language. -/
  | version (major minor : Nat)
  /-- A directive that declares a handle for tags. -/
  | declareHandle (handle : String)
  /-- The mark at the start of a document. -/
  | documentStart
  /-- The mark at the end of a document. -/
  | documentEnd
  /-- The start of a block mapping. -/
  | openBlock
  /-- The end of a block mapping. -/
  | closeBlock
  /-- The start of a flow mapping. -/
  | openFlow
  /-- The end of a flow mapping. -/
  | closeFlow
  /-- A comma in a flow mapping. -/
  | comma
  /-- What comes before a key. -/
  | key
  /-- What comes before a value. -/
  | value
  /-- A node that was given before under an anchor. -/
  | aliasOf (anchor : String)
  /-- The anchor of the node that follows. -/
  | anchor (name : String)
  /-- The tag of the node that follows, with its handle, if it has one that must be declared. -/
  | tag (handle : Option String)
  /-- A scalar, and whether it was plain. -/
  | scalar (plain : Bool) (text : String)
  /-- The end of the text. -/
  | endOfText
deriving DecidableEq

/-! ## Anchors -/

/-- Whether an anchor or alias may end at the start of a text. -/
def endsName (text : List Char) : Bool :=
  atSpacing text || text.head?.any fun c =>
    c == '?' || c == ':' || c == ',' || c == ']' || c == '}' || c == '%' || c == '@' || c == '\x60'

/-- Reads the name of an anchor. -/
def readName (text : List Char) : Option (String × List Char) :=
  let name := text.takeWhile isNameChar
  let rest := text.dropWhile isNameChar
  if !name.isEmpty && endsName rest then some (String.ofList name, rest) else none

/-! ## Tags -/

/-- The characters that the names of tags are made of, besides escaped bytes. Some of them stand only
in names that are written in full. -/
def isUriChar (full : Bool) (c : Char) : Bool :=
  isNameChar c || ";/?:@&=+$.!~*'()".toList.contains c || (full && (c == ',' || c == '[' || c == ']'))

/-- The number of bytes that follow the first byte of a character. -/
def followingBytes? (first : Nat) : Option Nat :=
  if first < 0x80 then some 0
  else if first < 0xC0 then none
  else if first < 0xE0 then some 1
  else if first < 0xF0 then some 2
  else if first < 0xF8 then some 3
  else none

/-- Leaves out the characters and escaped bytes of a name, of which so many bytes must follow to
complete a character. -/
def skipUri (full : Bool) (missing : Nat) : List Char → Option (List Char)
  | [] => if missing = 0 then some [] else none
  | '%' :: a :: b :: rest =>
    match Hexadecimal.value? a, Hexadecimal.value? b with
    | some high, some low =>
      let byte := high * 16 + low
      match missing with
      | 0 =>
        match followingBytes? byte with
        | some n => skipUri full n rest
        | none => none
      | missing + 1 => if byte / 64 = 2 then skipUri full missing rest else none
    | _, _ => none
  | c :: rest =>
    if c = '%' || missing ≠ 0 then none
    else if isUriChar full c then skipUri full 0 rest
    else some (c :: rest)

/-- Leaves out a name that must not be empty. -/
def skipSomeUri (full : Bool) (text : List Char) : Option (List Char) :=
  match skipUri full 0 text with
  | some rest => if rest.length = text.length then none else some rest
  | none => none

/-- Reads what may be the handle of a tag, after its exclamation mark: the characters of a name, and
a second mark if there is one. -/
def readHandle (text : List Char) : String × List Char :=
  let name := text.takeWhile isNameChar
  match text.dropWhile isNameChar with
  | '!' :: rest => (String.ofList ('!' :: name ++ ['!']), rest)
  | rest => (String.ofList ('!' :: name), rest)

/-- Whether a handle has its second mark. -/
def isCompleteHandle (handle : String) : Bool :=
  handle != "!" && handle.toList.getLast? == some '!'

/-- Reads a tag after its exclamation mark, up to where it may end. -/
def readTagName (text : List Char) : Option (Option String × List Char) :=
  match text with
  | '<' :: rest =>
    match skipSomeUri true rest with
    | some ('>' :: rest) => some (none, rest)
    | _ => none
  | _ =>
    let (handle, rest) := readHandle text
    if isCompleteHandle handle then (skipSomeUri false rest).map fun rest => (some handle, rest)
    else (skipUri false 0 rest).map fun rest => (none, rest)

/-- Reads a tag after its exclamation mark. -/
def readTag (flow : Bool) (text : List Char) : Option (Token × List Char) :=
  match readTagName text with
  | some (handle, rest) =>
    if atSpacing rest || (flow && rest.head? = some ',') then some (.tag handle, rest) else none
  | none => none

/-! ## Directives -/

/-- Reads a number of at most nine digits. -/
def readVersionNumber (text : List Char) : Option (Nat × List Char) :=
  let digits := text.takeWhile Char.isDigit
  if digits.isEmpty || 9 < digits.length then none
  else some (digits.foldl (fun n c => n * 10 + (c.toNat - '0'.toNat)) 0, text.dropWhile Char.isDigit)

/-- Reads the version of the language. -/
def readVersion (text : List Char) : Option (Token × List Char) :=
  match readVersionNumber (text.dropWhile isBlank) with
  | some (major, '.' :: rest) =>
    (readVersionNumber rest).map fun (minor, rest) => (.version major minor, rest)
  | _ => none

/-- Reads the declaration of a handle. -/
def readDeclaration (text : List Char) : Option (Token × List Char) :=
  match text.dropWhile isBlank with
  | '!' :: rest =>
    let (handle, rest) := readHandle rest
    if (handle == "!" || isCompleteHandle handle) && rest.head?.any isBlank then
      match skipSomeUri true (rest.dropWhile isBlank) with
      | some rest => if atSpacing rest then some (.declareHandle handle, rest) else none
      | none => none
    else none
  | _ => none

/-- Reads a directive after its percent sign, up to the end of its line. -/
def readDirective (text : List Char) : Option (Token × List Char) := do
  let name := text.takeWhile isNameChar
  let rest := text.dropWhile isNameChar
  let (token, rest) ←
    if !atSpacing rest then none
    else if name = "YAML".toList then readVersion rest
    else if name = "TAG".toList then readDeclaration rest
    else none
  let rest := rest.dropWhile isBlank
  let rest := if rest.head? = some '#' then rest.dropWhile fun c => !isBreak c else rest
  if atLineEnd rest then some (token, rest) else none

end Eligibility.Yaml
