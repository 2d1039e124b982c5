import Eligibility.Yaml.Block
import Eligibility.Yaml.Scalar
import Eligibility.Yaml.Token

/-!
# Cutting a YAML text into tokens

Two things are not visible in the text itself. Block mappings start and end with the indentation of
their keys; and that a scalar is a key shows only when a colon follows it on its line. So a lexer
keeps the columns of the open block mappings, and for the current level, and for each flow mapping
around it, where the key is that a colon may still complete. The token before that key is put in
when the colon comes.

A key that starts in the column of its block mapping must be followed by a colon.
-/

namespace Eligibility.Yaml

/-- Something that a colon would make a key. -/
structure PendingKey where
  /-- The number of tokens before it. -/
  position : Nat
  /-- Its line. -/
  line : Nat
  /-- Its column. -/
  column : Nat
  /-- Whether a colon must follow. -/
  required : Bool

/-- A text that is being cut into tokens. -/
structure Lexer where
  /-- The text that is left. -/
  rest : List Char
  /-- The line where it starts. -/
  line : Nat
  /-- The column where it starts. -/
  column : Nat
  /-- The tokens so far. -/
  tokens : List Token
  /-- The columns of the open block mappings, innermost first. -/
  columns : List Nat
  /-- The key that a colon may complete. -/
  pending : Option PendingKey
  /-- Such keys around each open flow mapping, innermost first. -/
  outer : List (Option PendingKey)
  /-- Whether a key may start here. -/
  keyAllowed : Bool

namespace Lexer

/-- The lexer before a text. A byte order mark at the start takes up a column. -/
def start (text : List Char) : Lexer :=
  let (rest, column) := match text with
    | '\ufeff' :: rest => (rest, 1)
    | _ => (text, 0)
  { rest, line := 0, column, tokens := [], columns := [], pending := none, outer := [],
    keyAllowed := true }

/-- Whether the lexer is inside a flow mapping. -/
def inFlow (s : Lexer) : Bool := !s.outer.isEmpty

/-! ## Moving -/

/-- The lexer after one more character. -/
def pass (s : Lexer) (c : Char) : Lexer :=
  if isBreak c then { s with line := s.line + 1, column := 0 } else { s with column := s.column + 1 }

/-- The lexer after so many more characters. -/
def passMany (s : Lexer) (count : Nat) : Lexer :=
  let moved := (s.rest.take count).foldl pass s
  { moved with rest := s.rest.drop count }

/-- The lexer further on in its text, with the given part of it left. -/
def moveTo (s : Lexer) (rest : List Char) : Lexer := s.passMany (s.rest.length - rest.length)

/-- The lexer after a token, which has at least one character, with the given part of the text
left. -/
def passToken (s : Lexer) (rest : List Char) : Lexer :=
  s.passMany (max 1 (s.rest.length - rest.length))

theorem rest_passMany (s : Lexer) (count : Nat) : (s.passMany count).rest = s.rest.drop count := rfl

theorem length_moveTo_le (s : Lexer) (rest : List Char) :
    (s.moveTo rest).rest.length ≤ s.rest.length := by
  simp only [moveTo, rest_passMany, List.length_drop]
  omega

theorem length_passToken_lt {s : Lexer} (rest : List Char) (h : s.rest ≠ []) :
    (s.passToken rest).rest.length < s.rest.length := by
  have := List.length_pos_iff.2 h
  simp only [passToken, rest_passMany, List.length_drop]
  omega

/-- Leaves out spacing and comments. Tabs are spacing only where no key may start. The second part of
the result tells whether a key may start at the rest. -/
def skipSpacing (flow : Bool) (comment keyAllowed : Bool) : List Char → List Char × Bool
  | [] => ([], keyAllowed)
  | c :: rest =>
    if isBreak c then skipSpacing flow false (keyAllowed || !flow) rest
    else if comment || c == '#' then skipSpacing flow true keyAllowed rest
    else if c == ' ' || (c == '\t' && (flow || !keyAllowed)) then
      skipSpacing flow false keyAllowed rest
    else (c :: rest, keyAllowed)

/-- The lexer at the next token. -/
def toToken (s : Lexer) : Lexer :=
  let (rest, keyAllowed) := skipSpacing s.inFlow false s.keyAllowed s.rest
  { s.moveTo rest with keyAllowed }

theorem length_toToken_le (s : Lexer) : s.toToken.rest.length ≤ s.rest.length :=
  length_moveTo_le s _

/-! ## Tokens and keys -/

/-- One more token. -/
def emit (s : Lexer) (t : Token) : Lexer := { s with tokens := s.tokens ++ [t] }

/-- The greatest distance between the start of a key and its colon. -/
def maxKeyLength : Nat := 1024

/-- Whether a colon comes too late for a key. -/
def isStale (s : Lexer) (k : PendingKey) : Bool :=
  k.line < s.line || k.column + maxKeyLength < s.column

/-- Gives up a key for which a colon comes too late, unless it needs one. -/
def dropStale (s : Lexer) : Option PendingKey → Option (Option PendingKey)
  | none => some none
  | some k => if s.isStale k then (if k.required then none else some none) else some (some k)

/-- Gives up all keys for which a colon comes too late. -/
def dropStaleKeys (s : Lexer) : Option Lexer := do
  let outer ← s.outer.mapM s.dropStale
  let pending ← s.dropStale s.pending
  return { s with outer, pending }

/-- Gives up the key of the current level, unless it needs a colon. -/
def dropKey (s : Lexer) : Option Lexer :=
  if s.pending.any PendingKey.required then none else some { s with pending := none }

/-- Notes that what starts here may be a key. -/
def saveKey (s : Lexer) : Option Lexer :=
  if s.keyAllowed then
    s.dropKey.map fun s =>
      { s with
        pending := some
          { position := s.tokens.length
            line := s.line
            column := s.column
            required := !s.inFlow && s.columns.head? == some s.column } }
  else some s

/-! ## Indentation -/

/-- Ends block mappings as long as their columns satisfy a condition. -/
def closeColumns (p : Nat → Bool) (tokens : List Token) : List Nat → List Token × List Nat
  | [] => (tokens, [])
  | column :: columns =>
    if p column then closeColumns p (tokens ++ [.closeBlock]) columns
    else (tokens, column :: columns)

/-- Ends block mappings, except in a flow mapping, where indentation does not matter. -/
def closeBlocks (s : Lexer) (p : Nat → Bool) : Lexer :=
  if s.inFlow then s
  else
    let (tokens, columns) := closeColumns p s.tokens s.columns
    { s with tokens, columns }

/-- Starts a block mapping whose keys are in the given column, unless one is open there. The start
stands before the tokens from the given position on. -/
def openBlock (s : Lexer) (column position : Nat) : Lexer :=
  if s.inFlow || s.columns.head?.any (column ≤ ·) then s
  else
    { s with
      tokens := s.tokens.take position ++ Token.openBlock :: s.tokens.drop position
      columns := column :: s.columns }

theorem rest_emit (s : Lexer) (t : Token) : (s.emit t).rest = s.rest := rfl

theorem rest_closeBlocks (s : Lexer) (p : Nat → Bool) : (s.closeBlocks p).rest = s.rest := by
  unfold closeBlocks
  split <;> rfl

theorem rest_openBlock (s : Lexer) (column position : Nat) :
    (s.openBlock column position).rest = s.rest := by
  unfold openBlock
  split <;> rfl

theorem rest_dropStaleKeys {s t : Lexer} (h : s.dropStaleKeys = some t) : t.rest = s.rest := by
  unfold dropStaleKeys at h
  obtain ⟨outer, _, h⟩ := Option.bind_eq_some_iff.1 h
  obtain ⟨pending, _, h⟩ := Option.bind_eq_some_iff.1 h
  cases h
  rfl

theorem rest_dropKey {s t : Lexer} (h : s.dropKey = some t) : t.rest = s.rest := by
  unfold dropKey at h
  split at h
  · cases h
  · cases h; rfl

theorem rest_saveKey {s t : Lexer} (h : s.saveKey = some t) : t.rest = s.rest := by
  unfold saveKey at h
  split at h
  · obtain ⟨u, hu, heq⟩ := Option.map_eq_some_iff.1 h
    have hrest := rest_dropKey hu
    rw [← heq]
    exact hrest
  · cases h; rfl

/-! ## Reading a token

Each of the following takes the lexer at the first character of a token, and the text after that
character. -/

/-- A token outside all mappings, up to the given rest. -/
def takeMark (s : Lexer) (t : Token) (rest : List Char) : Option Lexer := do
  let s ← (s.closeBlocks fun _ => true).dropKey
  return { (s.emit t).passToken rest with keyAllowed := false }

/-- The start of a flow mapping. -/
def takeOpenFlow (s : Lexer) (rest : List Char) : Option Lexer := do
  let s ← s.saveKey
  let s := (s.emit .openFlow).passToken rest
  return { s with pending := none, outer := s.pending :: s.outer, keyAllowed := true }

/-- The end of a flow mapping. -/
def takeCloseFlow (s : Lexer) (rest : List Char) : Option Lexer := do
  let s ← s.dropKey
  let s := (s.emit .closeFlow).passToken rest
  return { s with pending := s.outer.head?.join, outer := s.outer.tail, keyAllowed := false }

/-- A comma. -/
def takeComma (s : Lexer) (rest : List Char) : Option Lexer := do
  let s ← s.dropKey
  return { (s.emit .comma).passToken rest with keyAllowed := true }

/-- A question mark before a key. -/
def takeQuestion (s : Lexer) (rest : List Char) : Option Lexer :=
  if !s.inFlow && !s.keyAllowed then none
  else do
    let s ← (s.openBlock s.column s.tokens.length).dropKey
    return { (s.emit .key).passToken rest with keyAllowed := !s.inFlow }

/-- The tokens before the colon of a key. -/
def completeKey (s : Lexer) (k : PendingKey) : Lexer :=
  let s := { s with tokens := s.tokens.take k.position ++ Token.key :: s.tokens.drop k.position }
  { s.openBlock k.column k.position with pending := none }

/-- A colon before a value. -/
def takeColon (s : Lexer) (rest : List Char) : Option Lexer :=
  match s.pending with
  | some k => some { ((s.completeKey k).emit .value).passToken rest with keyAllowed := false }
  | none =>
    if !s.inFlow && !s.keyAllowed then none
    else
      let s := s.openBlock s.column s.tokens.length
      some { (s.emit .value).passToken rest with keyAllowed := !s.inFlow }

/-- A token that may start a key, as it was read. -/
def takeNode (s : Lexer) (result : Option (Token × List Char)) : Option Lexer := do
  let s ← s.saveKey
  let (t, rest) ← result
  return { (s.emit t).passToken rest with keyAllowed := false }

/-- A plain scalar, as it was read. -/
def takePlain (s : Lexer) (result : Option Plain) : Option Lexer := do
  let s ← s.saveKey
  let p ← result
  return { (s.emit (.scalar true (String.ofList p.text))).passToken p.rest with
    keyAllowed := p.endsLine }

/-- A block scalar, as it was read. -/
def takeBlock (s : Lexer) (result : Option (List Char × List Char)) : Option Lexer := do
  let s ← s.dropKey
  let (text, rest) ← result
  return { (s.emit (.scalar false (String.ofList text))).passToken rest with keyAllowed := true }

/-- The token of a quoted scalar. -/
def quotedToken (result : Option (List Char × List Char)) : Option (Token × List Char) :=
  result.map fun (text, rest) => (.scalar false (String.ofList text), rest)

/-- Whether a plain scalar may start with a character. -/
def startsPlain (flow : Bool) (c : Char) (rest : List Char) : Bool :=
  if c == '-' then !rest.head?.any isBlank
  else if c == '?' || c == ':' then !flow && !atSpacing rest
  else !(isSpacing c || ",[]\x7b\x7d#&*!|>'\"%@\x60".toList.contains c)

/-- The column from which on lines belong to what is in the innermost block mapping. -/
def indent (s : Lexer) : Nat := (s.columns.head?.map (· + 1)).getD 0

/-- Takes an anchor, an alias, a tag or a scalar. -/
def takeContent (s : Lexer) (c : Char) (rest : List Char) : Option Lexer :=
  match c with
  | '*' => s.takeNode ((readName rest).map fun (name, rest) => (.aliasOf name, rest))
  | '&' => s.takeNode ((readName rest).map fun (name, rest) => (.anchor name, rest))
  | '!' => s.takeNode (readTag s.inFlow rest)
  | '\'' => s.takeNode (quotedToken (readSingle rest))
  | '"' => s.takeNode (quotedToken (readDouble rest))
  | c =>
    if (c == '|' || c == '>') && !s.inFlow then
      s.takeBlock (readBlock (c == '>') s.columns.head? rest)
    else if startsPlain s.inFlow c rest then s.takePlain (readPlain s.inFlow s.indent c rest)
    else none

/-- Whether a character that may be part of a scalar is by itself here. -/
def standsAlone (s : Lexer) (rest : List Char) : Bool := s.inFlow || atSpacing rest

/-- Takes a token that does not depend on the start of a line. -/
def takeInLine (s : Lexer) (c : Char) (rest : List Char) : Option Lexer :=
  match c with
  | '{' => s.takeOpenFlow rest
  | '}' => s.takeCloseFlow rest
  | ',' => s.takeComma rest
  | '-' => if atSpacing rest then none else s.takeContent c rest
  | '?' => if s.standsAlone rest then s.takeQuestion rest else s.takeContent c rest
  | ':' => if s.standsAlone rest then s.takeColon rest else s.takeContent c rest
  | c => s.takeContent c rest

/-- Takes a directive. -/
def takeDirective (s : Lexer) (rest : List Char) : Option Lexer :=
  match readDirective rest with
  | some (t, rest) => s.takeMark t rest
  | none => none

/-- Takes a token that starts with the given character, at which the lexer stands. -/
def takeToken (s : Lexer) (c : Char) (rest : List Char) : Option Lexer :=
  if s.column = 0 then
    if c = '%' then s.takeDirective rest
    else if startsWithMarks '-' (c :: rest) then s.takeMark .documentStart (rest.drop 2)
    else if startsWithMarks '.' (c :: rest) then s.takeMark .documentEnd (rest.drop 2)
    else s.takeInLine c rest
  else s.takeInLine c rest

/-- Gets to the next token: leaves out spacing, gives up keys and ends block mappings. -/
def prepare (s : Lexer) : Option Lexer := do
  let s ← s.toToken.dropStaleKeys
  return s.closeBlocks (s.column < ·)

/-- Ends a text. -/
def finish (s : Lexer) : Option (List Token) := do
  let s ← (s.closeBlocks fun _ => true).dropKey
  return s.tokens ++ [.endOfText]

/-! ## Progress

A lexer that has taken a token is further on in its text: every token has a character at least. -/

/-- Noting tokens and keys does not move a lexer. -/
theorem length_passToken_of_rest {s u : Lexer} (rest : List Char) (hs : s.rest ≠ [])
    (hu : u.rest = s.rest) : (u.passToken rest).rest.length < s.rest.length := by
  rw [← hu] at hs ⊢
  exact length_passToken_lt rest hs

variable {s t : Lexer} {rest : List Char}

theorem length_takeMark_lt {token : Token} (hs : s.rest ≠ [])
    (h : s.takeMark token rest = some t) : t.rest.length < s.rest.length := by
  obtain ⟨u, hu, heq⟩ := Option.bind_eq_some_iff.1 h
  have hrest : (u.emit token).rest = s.rest := (rest_dropKey hu).trans (rest_closeBlocks s _)
  cases heq
  exact length_passToken_of_rest rest hs hrest

theorem length_takeOpenFlow_lt (hs : s.rest ≠ []) (h : s.takeOpenFlow rest = some t) :
    t.rest.length < s.rest.length := by
  obtain ⟨u, hu, heq⟩ := Option.bind_eq_some_iff.1 h
  have hrest : (u.emit .openFlow).rest = s.rest :=
    (rest_emit _ _).trans (rest_saveKey hu)
  cases heq
  exact length_passToken_of_rest rest hs hrest

theorem length_takeCloseFlow_lt (hs : s.rest ≠ []) (h : s.takeCloseFlow rest = some t) :
    t.rest.length < s.rest.length := by
  obtain ⟨u, hu, heq⟩ := Option.bind_eq_some_iff.1 h
  have hrest : (u.emit .closeFlow).rest = s.rest :=
    (rest_emit _ _).trans (rest_dropKey hu)
  cases heq
  exact length_passToken_of_rest rest hs hrest

theorem length_takeComma_lt (hs : s.rest ≠ []) (h : s.takeComma rest = some t) :
    t.rest.length < s.rest.length := by
  obtain ⟨u, hu, heq⟩ := Option.bind_eq_some_iff.1 h
  have hrest : (u.emit .comma).rest = s.rest :=
    (rest_emit _ _).trans (rest_dropKey hu)
  cases heq
  exact length_passToken_of_rest rest hs hrest

theorem length_takeQuestion_lt (hs : s.rest ≠ []) (h : s.takeQuestion rest = some t) :
    t.rest.length < s.rest.length := by
  unfold takeQuestion at h
  split at h
  · cases h
  · obtain ⟨u, hu, heq⟩ := Option.bind_eq_some_iff.1 h
    have hrest : (u.emit .key).rest = s.rest := (rest_dropKey hu).trans (rest_openBlock s _ _)
    cases heq
    exact length_passToken_of_rest rest hs hrest

theorem length_takeColon_lt (hs : s.rest ≠ []) (h : s.takeColon rest = some t) :
    t.rest.length < s.rest.length := by
  unfold takeColon at h
  split at h
  · rename_i k _
    have hrest : ((s.completeKey k).emit .value).rest = s.rest := rest_openBlock _ _ _
    cases h
    exact length_passToken_of_rest rest hs hrest
  · split at h
    · cases h
    · have hrest : ((s.openBlock s.column s.tokens.length).emit .value).rest = s.rest :=
        rest_openBlock s _ _
      cases h
      exact length_passToken_of_rest rest hs hrest

theorem length_takeNode_lt {result : Option (Token × List Char)} (hs : s.rest ≠ [])
    (h : s.takeNode result = some t) : t.rest.length < s.rest.length := by
  obtain ⟨u, hu, h⟩ := Option.bind_eq_some_iff.1 h
  obtain ⟨⟨token, after⟩, _, heq⟩ := Option.bind_eq_some_iff.1 h
  have hrest : (u.emit token).rest = s.rest :=
    (rest_emit _ _).trans (rest_saveKey hu)
  cases heq
  exact length_passToken_of_rest after hs hrest

theorem length_takePlain_lt {result : Option Plain} (hs : s.rest ≠ [])
    (h : s.takePlain result = some t) : t.rest.length < s.rest.length := by
  obtain ⟨u, hu, h⟩ := Option.bind_eq_some_iff.1 h
  obtain ⟨p, _, heq⟩ := Option.bind_eq_some_iff.1 h
  have hrest : (u.emit (.scalar true (String.ofList p.text))).rest = s.rest :=
    (rest_emit _ _).trans (rest_saveKey hu)
  cases heq
  exact length_passToken_of_rest p.rest hs hrest

theorem length_takeBlock_lt {result : Option (List Char × List Char)} (hs : s.rest ≠ [])
    (h : s.takeBlock result = some t) : t.rest.length < s.rest.length := by
  obtain ⟨u, hu, h⟩ := Option.bind_eq_some_iff.1 h
  obtain ⟨⟨text, after⟩, _, heq⟩ := Option.bind_eq_some_iff.1 h
  have hrest : (u.emit (.scalar false (String.ofList text))).rest = s.rest :=
    (rest_emit _ _).trans (rest_dropKey hu)
  cases heq
  exact length_passToken_of_rest after hs hrest

theorem length_takeContent_lt {c : Char} (hs : s.rest ≠ []) (h : s.takeContent c rest = some t) :
    t.rest.length < s.rest.length := by
  unfold takeContent at h
  split at h
  · exact length_takeNode_lt hs h
  · exact length_takeNode_lt hs h
  · exact length_takeNode_lt hs h
  · exact length_takeNode_lt hs h
  · exact length_takeNode_lt hs h
  · split at h
    · exact length_takeBlock_lt hs h
    · split at h
      · exact length_takePlain_lt hs h
      · cases h

theorem length_takeInLine_lt {c : Char} (hs : s.rest ≠ []) (h : s.takeInLine c rest = some t) :
    t.rest.length < s.rest.length := by
  unfold takeInLine at h
  split at h
  · exact length_takeOpenFlow_lt hs h
  · exact length_takeCloseFlow_lt hs h
  · exact length_takeComma_lt hs h
  · split at h
    · cases h
    · exact length_takeContent_lt hs h
  · split at h
    · exact length_takeQuestion_lt hs h
    · exact length_takeContent_lt hs h
  · split at h
    · exact length_takeColon_lt hs h
    · exact length_takeContent_lt hs h
  · exact length_takeContent_lt hs h

theorem length_takeToken_lt {c : Char} (hs : s.rest ≠ []) (h : s.takeToken c rest = some t) :
    t.rest.length < s.rest.length := by
  unfold takeToken at h
  split at h
  · split at h
    · unfold takeDirective at h
      split at h
      · exact length_takeMark_lt hs h
      · cases h
    split at h
    · exact length_takeMark_lt hs h
    split at h
    · exact length_takeMark_lt hs h
    · exact length_takeInLine_lt hs h
  · exact length_takeInLine_lt hs h

theorem length_prepare_le (h : s.prepare = some t) : t.rest.length ≤ s.rest.length := by
  obtain ⟨u, hu, heq⟩ := Option.bind_eq_some_iff.1 h
  cases heq
  rw [rest_closeBlocks, rest_dropStaleKeys hu]
  exact length_toToken_le s

/-- Takes all tokens that are left. -/
def run (s : Lexer) : Option (List Token) :=
  match _h : s.prepare with
  | none => none
  | some next =>
    match _hrest : next.rest with
    | [] => next.finish
    | c :: rest =>
      match _htake : next.takeToken c rest with
      | none => none
      | some after => run after
termination_by s.rest.length
decreasing_by
  have hle := length_prepare_le _h
  have hlt := length_takeToken_lt (by simp [_hrest]) _htake
  omega

end Lexer

/-- Cuts a text into tokens. -/
def tokens (text : String) : Option (List Token) :=
  if text.toList.all isAllowed then (Lexer.start (normalizeBreaks text.toList)).run else none

end Eligibility.Yaml
