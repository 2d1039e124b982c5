import Eligibility.Hexadecimal

/-!
# Reading TOML strings

There are four forms. A basic string stands between double quotes and has escapes, a literal string
stands between single quotes and has none; either ends on its line. With three quotes on both
sides a string may go over several lines: a line break right after the opening quotes is not part
of it, and up to two quotes may stand right before the closing ones.

Every reader starts after the opening quotes, and returns the text of the string and what follows
its closing quotes.
-/

namespace Eligibility.Toml

/-- The characters that may stand nowhere outside an escape; line breaks have rules of their own. -/
def isForbidden (c : Char) : Bool := (c.toNat < 32 && c != '\t') || c.toNat == 127

/-- The blanks inside a line. -/
def isBlank (c : Char) : Bool := c == ' ' || c == '\t'

/-- The letters that stand for a character after a backslash. -/
def escapes : List (Char × Char) :=
  [('"', '"'), ('\\', '\\'), ('b', '\x08'), ('e', '\x1b'), ('f', '\x0c'), ('n', '\n'), ('r', '\r'),
    ('t', '\t')]

/-- Reads what follows a backslash. -/
def readEscape : List Char → Option (Char × List Char)
  | [] => none
  | c :: rest =>
    if c = 'x' then Hexadecimal.readChar 2 rest
    else if c = 'u' then Hexadecimal.readChar 4 rest
    else if c = 'U' then Hexadecimal.readChar 8 rest
    else (escapes.lookup c).map fun meaning => (meaning, rest)

theorem length_readEscape_lt {text rest : List Char} {c : Char}
    (h : readEscape text = some (c, rest)) : rest.length < text.length := by
  cases text with
  | nil => cases h
  | cons d text =>
    simp only [readEscape] at h
    simp only [List.length_cons]
    split at h
    · have := Hexadecimal.length_readChar h; omega
    split at h
    · have := Hexadecimal.length_readChar h; omega
    split at h
    · have := Hexadecimal.length_readChar h; omega
    · obtain ⟨_, _, heq⟩ := Option.map_eq_some_iff.1 h
      cases heq
      omega

/-- Puts a character before the text that is read next. -/
def prepend (c : Char) (result : Option (List Char × List Char)) :
    Option (List Char × List Char) :=
  result.map fun (text, rest) => (c :: text, rest)

theorem prepend_eq_some {c : Char} {result : Option (List Char × List Char)}
    {text rest : List Char} (h : prepend c result = some (text, rest)) :
    ∃ inner, result = some (inner, rest) ∧ text = c :: inner := by
  obtain ⟨⟨inner, after⟩, hresult, heq⟩ := Option.map_eq_some_iff.1 h
  cases heq
  exact ⟨inner, hresult, rfl⟩

/-- Reads a literal string on one line. -/
def readLiteral : List Char → Option (List Char × List Char)
  | [] => none
  | c :: rest =>
    if c = '\'' then some ([], rest)
    else if isForbidden c then none
    else prepend c (readLiteral rest)

theorem length_readLiteral_lt {text inner rest : List Char}
    (h : readLiteral text = some (inner, rest)) : rest.length < text.length := by
  induction text generalizing inner with
  | nil => cases h
  | cons c text ih =>
    simp only [readLiteral] at h
    simp only [List.length_cons]
    split at h
    · cases h; omega
    · split at h
      · cases h
      · obtain ⟨_, hinner, _⟩ := prepend_eq_some h
        have := ih hinner
        omega

/-- Reads a basic string on one line. -/
def readBasic (text : List Char) : Option (List Char × List Char) :=
  match text with
  | [] => none
  | c :: rest =>
    if c = '"' then some ([], rest)
    else if c = '\\' then
      match _h : readEscape rest with
      | some (escaped, after) => prepend escaped (readBasic after)
      | none => none
    else if isForbidden c then none
    else prepend c (readBasic rest)
termination_by text.length
decreasing_by
  · have := length_readEscape_lt _h
    simp only [List.length_cons]
    omega
  · simp only [List.length_cons]
    omega

theorem length_readBasic_lt {text inner rest : List Char}
    (h : readBasic text = some (inner, rest)) : rest.length < text.length := by
  fun_induction readBasic text generalizing inner with
  | case1 => cases h
  | case2 => cases h; simp
  | case3 =>
    rename_i hescape _ ih
    obtain ⟨_, hinner, _⟩ := prepend_eq_some h
    have := ih hinner
    have := length_readEscape_lt hescape
    simp only [List.length_cons]
    omega
  | case4 => cases h
  | case5 => cases h
  | case6 c rest' _ _ _ ih =>
    obtain ⟨_, hinner, _⟩ := prepend_eq_some h
    have := ih hinner
    simp only [List.length_cons]
    omega

/-! ## Several lines -/

/-- The text after a line break at its start, if there is one. -/
def afterBreak? : List Char → Option (List Char)
  | '\n' :: rest => some rest
  | '\r' :: '\n' :: rest => some rest
  | _ => none

/-- The text without a line break at its start. -/
def dropBreak (text : List Char) : List Char := (afterBreak? text).getD text

/-- The quotes right before the closing ones, and what follows these, if the text starts with
closing quotes. -/
def closing? (quote : Char) : List Char → Option (List Char × List Char)
  | a :: b :: c :: rest =>
    if a = quote && b = quote && c = quote then
      let extra := (rest.take 2).takeWhile (· == quote)
      some (extra, rest.drop extra.length)
    else none
  | _ => none

theorem length_closing?_lt {quote : Char} {text extra rest : List Char}
    (h : closing? quote text = some (extra, rest)) : rest.length < text.length := by
  unfold closing? at h
  split at h
  · split at h
    · cases h
      simp only [List.length_drop, List.length_cons]
      omega
    · cases h
  · cases h

/-- Reads a literal string on several lines. -/
def readLongLiteral : List Char → Option (List Char × List Char)
  | [] => none
  | c :: rest =>
    match closing? '\'' (c :: rest) with
    | some (extra, after) => some (extra, after)
    | none =>
      if c = '\r' then
        if rest.head? = some '\n' then prepend c (readLongLiteral rest) else none
      else if isForbidden c && c != '\n' then none
      else prepend c (readLongLiteral rest)

theorem length_readLongLiteral_lt {text inner rest : List Char}
    (h : readLongLiteral text = some (inner, rest)) : rest.length < text.length := by
  induction text generalizing inner with
  | nil => cases h
  | cons c text ih =>
    simp only [readLongLiteral] at h
    split at h
    · rename_i hclosing
      cases h
      exact length_closing?_lt hclosing
    · simp only [List.length_cons]
      split at h
      · split at h
        · obtain ⟨_, hinner, _⟩ := prepend_eq_some h
          have := ih hinner
          omega
        · cases h
      · split at h
        · cases h
        · obtain ⟨_, hinner, _⟩ := prepend_eq_some h
          have := ih hinner
          omega

/-- What a backslash at the end of a line leaves out. -/
inductive Omission where
  /-- Nothing is left out here. -/
  | nothing
  /-- The blanks between the backslash and the end of its line. -/
  | lineEnd
  /-- Blanks and line breaks. -/
  | blanks
deriving DecidableEq

/-- Reads a basic string on several lines. -/
def readLongBasic (omission : Omission) (text : List Char) : Option (List Char × List Char) :=
  match text with
  | [] => none
  | c :: rest =>
    if omission ≠ .nothing && isBlank c then readLongBasic omission rest
    else if omission ≠ .nothing && c = '\n' then readLongBasic .blanks rest
    else if omission ≠ .nothing && c = '\r' && rest.head? = some '\n' then
      readLongBasic omission rest
    else if omission = .lineEnd then none
    else
      match closing? '"' (c :: rest) with
      | some (extra, after) => some (extra, after)
      | none =>
        if c = '\\' then
          if rest.head?.any fun d => isBlank d || d == '\n' || d == '\r' then
            readLongBasic .lineEnd rest
          else
            match _h : readEscape rest with
            | some (escaped, after) => prepend escaped (readLongBasic .nothing after)
            | none => none
        else if c = '\r' then
          if rest.head? = some '\n' then prepend c (readLongBasic .nothing rest) else none
        else if isForbidden c && c != '\n' then none
        else prepend c (readLongBasic .nothing rest)
termination_by text.length
decreasing_by
  all_goals simp only [List.length_cons]
  any_goals omega
  have := length_readEscape_lt _h
  omega

theorem length_readLongBasic_lt {omission : Omission} {text inner rest : List Char}
    (h : readLongBasic omission text = some (inner, rest)) : rest.length < text.length := by
  induction hn : text.length using Nat.strongRecOn generalizing omission text inner with
  | _ n ih =>
    subst hn
    have step {omission : Omission} {after inner : List Char}
        (hshort : after.length < text.length)
        (hread : readLongBasic omission after = some (inner, rest)) :
        rest.length < text.length := by
      have := ih _ hshort hread rfl
      omega
    cases text with
    | nil => rw [readLongBasic] at h; cases h
    | cons c text =>
      have hshort : text.length < (c :: text).length := by simp
      rw [readLongBasic] at h
      split at h
      · exact step hshort h
      split at h
      · exact step hshort h
      split at h
      · exact step hshort h
      split at h
      · cases h
      split at h
      · rename_i hclosing
        cases h
        exact length_closing?_lt hclosing
      split at h
      · split at h
        · exact step hshort h
        · split at h
          · rename_i hescape
            obtain ⟨_, hinner, _⟩ := prepend_eq_some h
            have := length_readEscape_lt hescape
            exact step (by omega) hinner
          · cases h
      split at h
      · split at h
        · obtain ⟨_, hinner, _⟩ := prepend_eq_some h
          exact step hshort hinner
        · cases h
      split at h
      · cases h
      · obtain ⟨_, hinner, _⟩ := prepend_eq_some h
        exact step hshort hinner

end Eligibility.Toml
