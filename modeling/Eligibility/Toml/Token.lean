import Eligibility.Toml.Strings

/-!
# TOML tokens

A TOML text is cut into words, strings, punctuation and line breaks; blanks and comments are left
out. A word is a run of letters, digits, underscores and dashes, which is a key if it stands where
one is expected. Numbers, dates and truth values are read as words too, and no statement that is
understood here has a word for a value.
-/

namespace Eligibility.Toml

/-- A token of a TOML text. -/
inductive Token where
  /-- A word. -/
  | word (text : String)
  /-- A string on one line. -/
  | string (text : String)
  /-- A string that may go over several lines. -/
  | longString (text : String)
  /-- A dot. -/
  | dot
  /-- An equals sign. -/
  | equals
  /-- A comma. -/
  | comma
  /-- An opening bracket. -/
  | openBracket
  /-- A closing bracket. -/
  | closeBracket
  /-- An opening brace. -/
  | openBrace
  /-- A closing brace. -/
  | closeBrace
  /-- The end of a line. -/
  | lineBreak
deriving DecidableEq

/-- The characters that words are made of. -/
def isWordChar (c : Char) : Bool :=
  ('a' ≤ c && c ≤ 'z') || ('A' ≤ c && c ≤ 'Z') || ('0' ≤ c && c ≤ '9') || c == '_' || c == '-'

/-- The token that a character is by itself. -/
def punctuation? (c : Char) : Option Token :=
  if c = '.' then some .dot
  else if c = '=' then some .equals
  else if c = ',' then some .comma
  else if c = '[' then some .openBracket
  else if c = ']' then some .closeBracket
  else if c = '{' then some .openBrace
  else if c = '}' then some .closeBrace
  else if c = '\n' then some .lineBreak
  else none

/-- Makes a token of a string that was read. -/
def stringToken (make : String → Token) (result : Option (List Char × List Char)) :
    Option (Token × List Char) :=
  result.map fun (text, rest) => (make (String.ofList text), rest)

/-- Reads the string that starts with the given quote, which the text follows. -/
def readString (quote : Char) (text : List Char) : Option (Token × List Char) :=
  match text with
  | '"' :: '"' :: rest =>
    if quote = '"' then stringToken .longString (readLongBasic .nothing (dropBreak rest))
    else stringToken .string (readLiteral text)
  | '\'' :: '\'' :: rest =>
    if quote = '"' then stringToken .string (readBasic text)
    else stringToken .longString (readLongLiteral (dropBreak rest))
  | _ =>
    if quote = '"' then stringToken .string (readBasic text)
    else stringToken .string (readLiteral text)

/-- Reads the token at the start of a text that does not start with a blank or a comment. -/
def readToken : List Char → Option (Token × List Char)
  | [] => none
  | c :: rest =>
    match punctuation? c with
    | some token => some (token, rest)
    | none =>
      if c = '"' || c = '\'' then readString c rest
      else if c = '\r' then (afterBreak? (c :: rest)).map fun rest => (.lineBreak, rest)
      else if isWordChar c then
        some (.word (String.ofList (c :: rest.takeWhile isWordChar)), rest.dropWhile isWordChar)
      else none

theorem length_stringToken_lt {make : String → Token} {text : List Char}
    {result : Option (List Char × List Char)} {token : Token} {rest : List Char}
    (hresult : ∀ inner rest, result = some (inner, rest) → rest.length < text.length)
    (h : stringToken make result = some (token, rest)) : rest.length < text.length := by
  obtain ⟨⟨inner, after⟩, heq, hpair⟩ := Option.map_eq_some_iff.1 h
  cases hpair
  exact hresult _ _ heq

theorem length_afterBreak?_lt {text rest : List Char} (h : afterBreak? text = some rest) :
    rest.length < text.length := by
  unfold afterBreak? at h
  split at h <;> cases h <;> simp only [List.length_cons] <;> omega

theorem length_dropBreak_le (text : List Char) : (dropBreak text).length ≤ text.length := by
  unfold dropBreak
  cases h : afterBreak? text with
  | none => exact Nat.le_refl _
  | some rest => exact Nat.le_of_lt (length_afterBreak?_lt h)

theorem length_readString_lt {quote : Char} {text rest : List Char} {token : Token}
    (h : readString quote text = some (token, rest)) : rest.length < text.length := by
  unfold readString at h
  split at h
  · rename_i after
    have := length_dropBreak_le after
    split at h
    · refine length_stringToken_lt (fun _ _ hread => ?_) h
      have := length_readLongBasic_lt hread
      simp only [List.length_cons]
      omega
    · exact length_stringToken_lt (fun _ _ hread => length_readLiteral_lt hread) h
  · rename_i after
    have := length_dropBreak_le after
    split at h
    · exact length_stringToken_lt (fun _ _ hread => length_readBasic_lt hread) h
    · refine length_stringToken_lt (fun _ _ hread => ?_) h
      have := length_readLongLiteral_lt hread
      simp only [List.length_cons]
      omega
  · split at h
    · exact length_stringToken_lt (fun _ _ hread => length_readBasic_lt hread) h
    · exact length_stringToken_lt (fun _ _ hread => length_readLiteral_lt hread) h

/-- What follows a token is shorter than the text it is read from. -/
theorem length_readToken_lt {text rest : List Char} {token : Token}
    (h : readToken text = some (token, rest)) : rest.length < text.length := by
  cases text with
  | nil => cases h
  | cons c text =>
    simp only [readToken] at h
    split at h
    · cases h; simp
    split at h
    · have := length_readString_lt h
      simp only [List.length_cons]
      omega
    split at h
    · obtain ⟨after, hbreak, heq⟩ := Option.map_eq_some_iff.1 h
      cases heq
      exact length_afterBreak?_lt hbreak
    split at h
    · cases h
      have := (List.dropWhile_sublist (l := text) isWordChar).length_le
      simp only [List.length_cons]
      omega
    · cases h

/-- Leaves out a comment at the start of a text, up to the end of its line. A comment must not hold
forbidden characters. -/
def skipComment (text : List Char) : Option (List Char) :=
  if text.head? = some '#' then
    match text.dropWhile fun c => !isForbidden c with
    | [] => some []
    | c :: rest => if c = '\n' || c = '\r' then some (c :: rest) else none
  else some text

theorem length_skipComment_le {text rest : List Char} (h : skipComment text = some rest) :
    rest.length ≤ text.length := by
  have hle := (List.dropWhile_sublist (l := text) fun c => !isForbidden c).length_le
  unfold skipComment at h
  split at h
  · split at h
    · cases h; simp
    · rename_i heq
      split at h
      · cases h; exact heq ▸ hle
      · cases h
  · cases h; exact Nat.le_refl _

/-- Leaves out blanks and a comment. -/
def skipBlanks (text : List Char) : Option (List Char) := skipComment (text.dropWhile isBlank)

theorem length_skipBlanks_le {text rest : List Char} (h : skipBlanks text = some rest) :
    rest.length ≤ text.length :=
  Nat.le_trans (length_skipComment_le h) (List.dropWhile_sublist isBlank).length_le

/-- Cuts a text into tokens. -/
def tokens (text : List Char) : Option (List Token) :=
  match _h : skipBlanks text with
  | none => none
  | some [] => some []
  | some (c :: rest) =>
    match _h' : readToken (c :: rest) with
    | none => none
    | some (token, after) => (tokens after).map (token :: ·)
termination_by text.length
decreasing_by
  have hlt := length_readToken_lt _h'
  have hle := length_skipBlanks_le _h
  omega

/-- The text without a byte order mark at its start. -/
def dropMark : List Char → List Char
  | [] => []
  | c :: rest => if c = '\ufeff' then rest else c :: rest

end Eligibility.Toml
