import Eligibility.Hexadecimal
import Eligibility.Yaml.Characters

/-!
# Scalars on the line

Three forms of a scalar start on the line of what precedes them: plain, between single quotes, and
between double quotes. Each may go on over several lines, whose breaks are folded.

The readers return what a scalar stands for and the text after it.
-/

namespace Eligibility.Yaml

/-- Puts characters before the text that is read next. -/
def prepend (before : List Char) (result : Option (List Char × List Char)) :
    Option (List Char × List Char) :=
  result.map fun (text, rest) => (before ++ text, rest)

/-! ## Plain scalars -/

/-- The characters that structure a flow collection. -/
def isFlowIndicator (c : Char) : Bool :=
  c == ',' || c == '[' || c == ']' || c == '{' || c == '}'

/-- Whether a plain scalar ends at the start of a text. -/
def endsPlain (flow : Bool) (text : List Char) : Bool :=
  match text with
  | [] => true
  | c :: rest =>
    isSpacing c || (c == ':' && atSpacing rest) || (flow && isFlowIndicator c)

/-- Whether a text starts with a colon that is not allowed in a flow collection. -/
def startsWithLostColon (text : List Char) : Bool :=
  match text with
  | ':' :: c :: _ => isFlowIndicator c || c == '?'
  | _ => false

/-- Reads the part of a plain scalar up to spacing or to its end. -/
def readWord (flow : Bool) : List Char → Option (List Char × List Char)
  | [] => some ([], [])
  | c :: rest =>
    if flow && startsWithLostColon (c :: rest) then none
    else if endsPlain flow (c :: rest) then some ([], c :: rest)
    else prepend [c] (readWord flow rest)

theorem length_readWord_le {flow : Bool} {text word rest : List Char}
    (h : readWord flow text = some (word, rest)) : rest.length ≤ text.length := by
  induction text generalizing word with
  | nil => cases h; exact Nat.le_refl _
  | cons c text ih =>
    simp only [readWord] at h
    split at h
    · cases h
    split at h
    · cases h; exact Nat.le_refl _
    · obtain ⟨⟨_, _⟩, hinner, heq⟩ := Option.map_eq_some_iff.1 h
      cases heq
      have := ih hinner
      simp only [List.length_cons]
      omega

/-- Whether a scalar cannot go on in a text that some spacing precedes, because a mark between
documents is there. -/
def breaksOff (run after : List Char) : Bool :=
  hasBreak run && lastColumn run == 0 && atDocumentMark after

/-- A plain scalar as it was read. -/
structure Plain where
  /-- What it stands for. -/
  text : List Char
  /-- What follows it, and the spacing after it. -/
  rest : List Char
  /-- Whether there is a line break in the spacing after it. -/
  endsLine : Bool

/-- Reads the rest of a plain scalar, after a word. In a block, lines that are indented less than
the scalar must be do not belong to it. -/
def readPlainFrom (flow : Bool) (indent : Nat) (text : List Char) : Option Plain :=
  match text with
  | [] => some ⟨[], [], false⟩
  | c :: rest =>
    if _h : isSpacing c = true then
      let run := spacing (c :: rest)
      let stop : Plain := ⟨[], afterSpacing (c :: rest), hasBreak run⟩
      if tabInIndentation indent run then none
      else if !flow && hasBreak run && lastColumn run < indent then some stop
      else if breaksOff run stop.rest || stop.rest.head? = some '#' then some stop
      else
        match _hword : readWord flow (afterSpacing (c :: rest)) with
        | none => none
        | some ([], _) => some stop
        | some (word, next) =>
          (readPlainFrom flow indent next).map fun p => { p with text := folded run ++ word ++ p.text }
    else some ⟨[], c :: rest, false⟩
termination_by text.length
decreasing_by
  have := length_readWord_le _hword
  have : (afterSpacing (c :: rest)).length < (c :: rest).length := length_afterSpacing_lt _h
  omega

/-- Reads a plain scalar whose first character has been read. -/
def readPlain (flow : Bool) (indent : Nat) (first : Char) (text : List Char) : Option Plain :=
  match readWord flow text with
  | none => none
  | some (word, rest) =>
    (readPlainFrom flow indent rest).map fun p => { p with text := first :: word ++ p.text }

/-! ## Quoted scalars -/

/-- Reads the inside of a scalar between single quotes and the closing quote. A doubled quote stands
for a quote. -/
def readSingle (text : List Char) : Option (List Char × List Char) :=
  match text with
  | [] => none
  | c :: rest =>
    if _h : isSpacing c = true then
      let run := spacing (c :: rest)
      let after := afterSpacing (c :: rest)
      if breaksOff run after then none else prepend (folded run) (readSingle after)
    else if c = '\'' then
      match rest with
      | [] => some ([], [])
      | d :: after => if d = '\'' then prepend ['\''] (readSingle after) else some ([], d :: after)
    else prepend [c] (readSingle rest)
termination_by text.length
decreasing_by
  · exact length_afterSpacing_lt _h
  · simp only [List.length_cons]; omega
  · simp only [List.length_cons]; omega

/-- The letters that stand for a character after a backslash. -/
def escapes : List (Char × Char) :=
  [('0', '\x00'), ('a', '\x07'), ('b', '\x08'), ('t', '\t'), ('\t', '\t'), ('n', '\n'),
    ('v', '\x0b'), ('f', '\x0c'), ('r', '\r'), ('e', '\x1b'), (' ', ' '), ('"', '"'), ('/', '/'),
    ('\\', '\\'), ('N', '\u0085'), ('_', '\u00a0'), ('L', '\u2028'), ('P', '\u2029')]

/-- Reads what follows a backslash. -/
def readEscape : List Char → Option (Char × List Char)
  | [] => none
  | c :: rest =>
    if c = 'x' then Hexadecimal.readChar 2 rest
    else if c = 'u' then Hexadecimal.readChar 4 rest
    else if c = 'U' then Hexadecimal.readChar 8 rest
    else (escapes.lookup c).map fun meaning => (meaning, rest)

theorem length_readEscape_lt {text rest : List Char} {c : Char}
    (h : readEscape text = some (c, rest)) : rest.length < text.length := by
  cases text with
  | nil => cases h
  | cons d text =>
    simp only [readEscape] at h
    simp only [List.length_cons]
    split at h
    · have := Hexadecimal.length_readChar h; omega
    split at h
    · have := Hexadecimal.length_readChar h; omega
    split at h
    · have := Hexadecimal.length_readChar h; omega
    · obtain ⟨_, _, heq⟩ := Option.map_eq_some_iff.1 h
      cases heq
      omega

/-- Reads the inside of a scalar between double quotes and the closing quote. A backslash at the end
of a line leaves the break out, with the blanks that follow it, but not further breaks. -/
def readDouble (text : List Char) : Option (List Char × List Char) :=
  match text with
  | [] => none
  | c :: rest =>
    if _h : isSpacing c = true then
      let run := spacing (c :: rest)
      let after := afterSpacing (c :: rest)
      if breaksOff run after then none else prepend (folded run) (readDouble after)
    else if c = '"' then some ([], rest)
    else if c = '\\' then
      if rest.head?.any isBreak then
        let run := spacing rest
        let after := afterSpacing rest
        if breaksOff run after then none
        else prepend (run.filter isBreak).tail (readDouble after)
      else
        match _h : readEscape rest with
        | some (escaped, after) => prepend [escaped] (readDouble after)
        | none => none
    else prepend [c] (readDouble rest)
termination_by text.length
decreasing_by
  · exact length_afterSpacing_lt _h
  · have := length_afterSpacing_le rest
    simp only [List.length_cons]
    omega
  · have := length_readEscape_lt _h
    simp only [List.length_cons]
    omega
  · simp only [List.length_cons]
    omega

end Eligibility.Yaml
