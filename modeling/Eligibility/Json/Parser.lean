import Eligibility.Json
import Eligibility.Json.Strings

/-!
# Reading JSON

A JSON text is cut into tokens, and the tokens are put together from the left: a `Builder` is the
list of arrays and objects that are open, together with what may come next. There is no bound on
nesting, and a text holds exactly one value, with blanks around it at most.
-/

namespace Eligibility.Json

/-! ## Tokens -/

/-- A token of a JSON text. -/
inductive Token where
  /-- An opening brace. -/
  | openObject
  /-- A closing brace. -/
  | closeObject
  /-- An opening bracket. -/
  | openArray
  /-- A closing bracket. -/
  | closeArray
  /-- A comma. -/
  | comma
  /-- A colon. -/
  | colon
  /-- A string, with the text it stands for, if it stands for one. -/
  | string (text : Option String)
  /-- A value that is neither a string nor composed. -/
  | scalar (value : Json)

/-- The blanks between tokens. -/
def isBlank (c : Char) : Bool := c == ' ' || c == '\t' || c == '\n' || c == '\r'

/-- The token that a character is by itself. -/
def punctuation? (c : Char) : Option Token :=
  if c = '{' then some .openObject
  else if c = '}' then some .closeObject
  else if c = '[' then some .openArray
  else if c = ']' then some .closeArray
  else if c = ',' then some .comma
  else if c = ':' then some .colon
  else none

/-- Reads a value that is neither a string nor composed. -/
def readScalar (text : List Char) : Option (Json × List Char) :=
  match text with
  | 'n' :: 'u' :: 'l' :: 'l' :: rest => some (.null, rest)
  | 't' :: 'r' :: 'u' :: 'e' :: rest => some (.bool true, rest)
  | 'f' :: 'a' :: 'l' :: 's' :: 'e' :: rest => some (.bool false, rest)
  | _ => (readNumber text).map fun (spelling, rest) => (.number spelling, rest)

/-- Reads the inside of a string and its closing quote. -/
def readString (text : List Char) : Option (Token × List Char) :=
  (codeUnits text).map fun (units, rest) => (.string ((textOfUnits units).map String.ofList), rest)

/-- Reads the token at the start of a text. -/
def readToken (text : List Char) : Option (Token × List Char) :=
  match text with
  | [] => none
  | c :: rest =>
    match punctuation? c with
    | some token => some (token, rest)
    | none =>
      if c = '"' then readString rest
      else (readScalar text).map fun (value, rest) => (.scalar value, rest)

theorem length_readScalar_lt {text rest : List Char} {value : Json}
    (h : readScalar text = some (value, rest)) : rest.length < text.length := by
  unfold readScalar at h
  split at h
  · cases h; simp only [List.length_cons]; omega
  · cases h; simp only [List.length_cons]; omega
  · cases h; simp only [List.length_cons]; omega
  · obtain ⟨⟨n, r⟩, hn, heq⟩ := Option.map_eq_some_iff.1 h
    simp only [Prod.mk.injEq] at heq
    exact heq.2 ▸ length_readNumber_lt hn

/-- What follows a token is shorter than the text it is read from. -/
theorem length_readToken_lt {text rest : List Char} {token : Token}
    (h : readToken text = some (token, rest)) : rest.length < text.length := by
  unfold readToken at h
  split at h
  · cases h
  · split at h
    · cases h; simp
    · split at h
      · obtain ⟨⟨u, r⟩, hu, heq⟩ := Option.map_eq_some_iff.1 h
        have := length_codeUnits_lt hu
        simp only [Prod.mk.injEq] at heq
        simp only [List.length_cons, ← heq.2]
        omega
      · obtain ⟨⟨v, r⟩, hv, heq⟩ := Option.map_eq_some_iff.1 h
        simp only [Prod.mk.injEq] at heq
        exact heq.2 ▸ length_readScalar_lt hv

/-- Cuts a text into tokens. -/
def tokens (text : List Char) : Option (List Token) :=
  match _h : text.dropWhile isBlank with
  | [] => some []
  | c :: rest =>
    match _h' : readToken (c :: rest) with
    | none => none
    | some (token, after) => (tokens after).map (token :: ·)
termination_by text.length
decreasing_by
  have hlt := length_readToken_lt _h'
  have hle := (List.dropWhile_sublist (l := text) isBlank).length_le
  rw [_h] at hle
  omega

/-! ## Values -/

/-- An array or object whose closing token has not been read. -/
inductive Frame where
  /-- An array with some items. -/
  | array (items : List Json)
  /-- An object with some members, and the name of the member whose value comes next. -/
  | object (members : List (Option String × Json)) (name : Option String)

/-- A value that is being put together: the open arrays and objects, innermost first, and what may
come next. -/
inductive Builder where
  /-- A value. -/
  | expectValue (stack : List Frame)
  /-- The first item of an array, or its end. -/
  | expectFirstItem (stack : List Frame)
  /-- The first name of an object, or its end. -/
  | expectFirstName (stack : List Frame)
  /-- A name in an object that has some members. -/
  | expectName (stack : List Frame) (members : List (Option String × Json))
  /-- The colon after a name. -/
  | expectColon (stack : List Frame) (members : List (Option String × Json)) (name : Option String)
  /-- What follows a complete value. -/
  | complete (stack : List Frame) (value : Json)

namespace Builder

/-- Starts a value, in the given arrays and objects. -/
def startValue (stack : List Frame) : Token → Option Builder
  | .openObject => some (.expectFirstName stack)
  | .openArray => some (.expectFirstItem stack)
  | .string text => some (.complete stack (.string text))
  | .scalar value => some (.complete stack value)
  | _ => none

/-- Goes on after a complete value. -/
def continueAfter (stack : List Frame) (value : Json) (token : Token) : Option Builder :=
  match stack, token with
  | .array items :: stack, .comma => some (.expectValue (.array (items ++ [value]) :: stack))
  | .array items :: stack, .closeArray => some (.complete stack (.array (items ++ [value])))
  | .object members name :: stack, .comma => some (.expectName stack (members ++ [(name, value)]))
  | .object members name :: stack, .closeObject =>
    some (.complete stack (.object (members ++ [(name, value)])))
  | _, _ => none

/-- Takes one more token. -/
def step (b : Builder) (token : Token) : Option Builder :=
  match b with
  | .expectValue stack => startValue stack token
  | .expectFirstItem stack =>
    match token with
    | .closeArray => some (.complete stack (.array []))
    | _ => startValue (.array [] :: stack) token
  | .expectFirstName stack =>
    match token with
    | .closeObject => some (.complete stack (.object []))
    | .string text => some (.expectColon stack [] text)
    | _ => none
  | .expectName stack members =>
    match token with
    | .string text => some (.expectColon stack members text)
    | _ => none
  | .expectColon stack members name =>
    match token with
    | .colon => some (.expectValue (.object members name :: stack))
    | _ => none
  | .complete stack value => continueAfter stack value token

/-- The value, if it is complete. -/
def result? : Builder → Option Json
  | .complete [] value => some value
  | _ => none

end Builder

/-- The value that tokens denote. -/
def ofTokens (tokens : List Token) : Option Json := do
  let b ← tokens.foldlM Builder.step (.expectValue [])
  b.result?

/-- The value that a text denotes. -/
def parse (text : String) : Option Json := do
  let tokens ← tokens text.toList
  ofTokens tokens

end Eligibility.Json
