/-!
# Character classes and quoting

Which characters separate tokens of a rule text, how a string is put between quotes, and what
whitespace is trimmed from values and from whole inputs.

A rule text knows only four blanks. Trimming, in contrast, removes every character with the
`White_Space` property of Unicode, so that values pasted from documents come out clean.
-/

namespace Eligibility

/-- The number of bytes that characters take in UTF-8. -/
def byteLength (text : List Char) : Nat := text.foldr (fun c bytes => c.utf8Size + bytes) 0

@[simp] theorem byteLength_nil : byteLength [] = 0 := rfl

@[simp] theorem byteLength_cons (c : Char) (text : List Char) :
    byteLength (c :: text) = c.utf8Size + byteLength text := rfl

@[simp] theorem byteLength_append (a b : List Char) :
    byteLength (a ++ b) = byteLength a + byteLength b := by
  induction a with
  | nil => simp
  | cons c a ih => simp [ih, Nat.add_assoc]

/-- The blanks that may stand between tokens. -/
def isBlank (c : Char) : Bool := c == ' ' || c == '\t' || c == '\r' || c == '\n'

/-- The characters that open and close a quoted string. -/
def isQuote (c : Char) : Bool := c == '\'' || c == '"'

/-- The characters that end a token without quotes. -/
def isDelimiter (c : Char) : Bool := isBlank c || c == '.' || c == '(' || c == ')'

/-- The inside of a quoted string: each quote is written twice. -/
def doubled (quote : Char) : List Char → List Char
  | [] => []
  | c :: rest => if c = quote then quote :: quote :: doubled quote rest else c :: doubled quote rest

/-- Reads the inside of a quoted string and its closing quote. A doubled quote stands for one quote;
the first other quote closes the string. Returns the string and the text after it. -/
def unquote (quote : Char) : List Char → Option (List Char × List Char)
  | [] => none
  | c :: rest =>
    if c = quote then
      match rest with
      | [] => some ([], [])
      | d :: rest =>
        if d = quote then (unquote quote rest).map fun (text, rest) => (quote :: text, rest)
        else some ([], d :: rest)
    else (unquote quote rest).map fun (text, rest) => (c :: text, rest)

/-- What follows a quoted string is shorter than the string with its closing quote. -/
theorem length_unquote_lt {quote : Char} {text rest inner : List Char}
    (h : unquote quote text = some (inner, rest)) : rest.length < text.length := by
  fun_induction unquote quote text generalizing inner rest with
  | case1 => simp at h
  | case2 => simp_all
  | case3 _ ih =>
    obtain ⟨⟨i, r⟩, hr, heq⟩ := Option.map_eq_some_iff.1 h
    have := ih hr
    simp only [Prod.mk.injEq] at heq
    simp only [List.length_cons, ← heq.2]
    omega
  | case4 =>
    simp only [Option.some.injEq, Prod.mk.injEq] at h
    simp [← h.2]
  | case5 _ _ _ ih =>
    obtain ⟨⟨i, r⟩, hr, heq⟩ := Option.map_eq_some_iff.1 h
    have := ih hr
    simp only [Prod.mk.injEq] at heq
    simp only [List.length_cons, ← heq.2]
    omega

/-- A string between single quotes. -/
def quoted (text : String) : String :=
  String.ofList ('\'' :: doubled '\'' text.toList ++ ['\''])

/-- The characters with the `White_Space` property of Unicode. -/
def isWhitespace (c : Char) : Bool :=
  let n := c.toNat
  (9 ≤ n && n ≤ 13) || n == 0x20 || n == 0x85 || n == 0xA0 || n == 0x1680 ||
    (0x2000 ≤ n && n ≤ 0x200A) || n == 0x2028 || n == 0x2029 || n == 0x202F || n == 0x205F ||
    n == 0x3000

/-- Characters without the whitespace at both ends. -/
def trimmed (text : List Char) : List Char :=
  ((text.dropWhile isWhitespace).reverse.dropWhile isWhitespace).reverse

/-- A text without the whitespace at both ends. -/
def trim (text : String) : String := String.ofList (trimmed text.toList)

/-- Whether a text holds nothing but whitespace. -/
def isBlankText (text : String) : Bool := text.toList.all isWhitespace

end Eligibility
