import Eligibility.Yaml.Characters

/-!
# Block scalars

A block scalar starts below a header line and goes on as long as lines are indented as deeply as its
first line, or as the header says. A literal one keeps its line breaks; in a folded one, a single
break between two lines that do not start with a blank stands for a blank. The breaks at its end are
kept, cut to one, or left out.
-/

namespace Eligibility.Yaml

/-- What happens to the line breaks at the end. -/
inductive Chomping where
  /-- All are left out. -/
  | strip
  /-- The first is kept. -/
  | clip
  /-- All are kept. -/
  | keep
deriving DecidableEq

/-- What the header of a block scalar says. -/
structure BlockHeader where
  /-- What happens to the line breaks at the end. -/
  chomping : Chomping
  /-- By how much the lines are indented, if it is said. -/
  indentation : Option Nat

namespace BlockHeader

/-- Reads an indicator of chomping. -/
def readChomping : List Char → Chomping × List Char
  | '+' :: rest => (.keep, rest)
  | '-' :: rest => (.strip, rest)
  | text => (.clip, text)

/-- Reads an indicator of indentation, which must not be zero. -/
def readIndentation : List Char → Option (Option Nat × List Char)
  | [] => some (none, [])
  | c :: rest =>
    if c = '0' then none
    else if '1' ≤ c && c ≤ '9' then some (some (c.toNat - '0'.toNat), rest)
    else some (none, c :: rest)

/-- Reads the indicators of a header, which may stand in either order. -/
def readIndicators (text : List Char) : Option (BlockHeader × List Char) :=
  let (chomping, rest) := readChomping text
  if chomping ≠ .clip then do
    let (indentation, rest) ← readIndentation rest
    return (⟨chomping, indentation⟩, rest)
  else do
    let (indentation, rest) ← readIndentation rest
    let (chomping, rest) := if indentation.isSome then readChomping rest else (.clip, rest)
    return (⟨chomping, indentation⟩, rest)

/-- Reads a header up to the end of its line, over a comment. -/
def read (text : List Char) : Option (BlockHeader × List Char) := do
  let (header, rest) ← readIndicators text
  let rest := rest.dropWhile isBlank
  let rest := if rest.head? = some '#' then rest.dropWhile fun c => !isBreak c else rest
  match rest with
  | [] => some (header, [])
  | c :: rest => if isBreak c then some (header, rest) else none

end BlockHeader

/-- Lines without content, up to the content of a line. -/
structure EmptyLines where
  /-- The line breaks. -/
  breaks : List Char
  /-- The number of blanks before the content. -/
  column : Nat
  /-- The greatest number of blanks on any of the lines. -/
  widest : Nat
  /-- The text from the content on. -/
  rest : List Char

namespace EmptyLines

/-- One more line before the others. -/
def after (c : Char) (column : Nat) (lines : EmptyLines) : EmptyLines :=
  { lines with breaks := c :: lines.breaks, widest := max column lines.widest }

/-- Reads empty lines, from the given column of a line on. Blanks are counted up to the limit, if
there is one; a tab must not stand before it. -/
def read (limit : Option Nat) (column : Nat) : List Char → Option EmptyLines
  | [] => some ⟨[], column, column, []⟩
  | c :: rest =>
    let inside := limit.all (column < ·)
    if inside && c == ' ' then read limit (column + 1) rest
    else if inside && c == '\t' then none
    else if isBreak c then (read limit 0 rest).map (after c column)
    else some ⟨[], column, column, c :: rest⟩

theorem length_read_le {limit : Option Nat} {column : Nat} {text : List Char} {lines : EmptyLines}
    (h : read limit column text = some lines) : lines.rest.length ≤ text.length := by
  induction text generalizing column lines with
  | nil => cases h; exact Nat.le_refl _
  | cons c text ih =>
    simp only [read] at h
    simp only [List.length_cons]
    split at h
    · have := ih h
      omega
    split at h
    · cases h
    split at h
    · obtain ⟨inner, hinner, heq⟩ := Option.map_eq_some_iff.1 h
      cases heq
      have := ih hinner
      simp only [after]
      omega
    · cases h; exact Nat.le_refl _

end EmptyLines

/-- The break before a line and whether the line before starts with a blank. -/
structure LineBefore where
  /-- The break at the end of the line before, if there is such a line. -/
  ending : Option Char
  /-- Whether that line starts with a blank. -/
  startsBlank : Bool

/-- What the breaks between two lines stand for. -/
def joinedBreaks (isFolded : Bool) (before : LineBefore) (breaks : List Char) (startsBlank : Bool) :
    List Char :=
  if isFolded && before.ending = some '\n' && !before.startsBlank && !startsBlank then
    (if breaks.isEmpty then [' '] else breaks)
  else before.ending.toList ++ breaks

/-- A block scalar as it was read. -/
structure Block where
  /-- What its lines stand for, without the breaks at the end. -/
  text : List Char
  /-- The break at the end of its last line, if there is one. -/
  ending : Option Char
  /-- The breaks of the empty lines at the end. -/
  breaks : List Char
  /-- What follows it. -/
  rest : List Char

/-- Reads the lines of a block scalar that are indented by the given number of blanks. -/
def readLines (isFolded : Bool) (indent : Nat) (before : LineBefore) (lines : EmptyLines) :
    Option Block :=
  match _h : lines.rest with
  | [] => some ⟨[], before.ending, lines.breaks, []⟩
  | c :: rest =>
    if lines.column ≠ indent then some ⟨[], before.ending, lines.breaks, c :: rest⟩
    else
      let line := c :: rest.takeWhile fun d => !isBreak d
      let joined := joinedBreaks isFolded before lines.breaks (isBlank c)
      match _hrest : rest.dropWhile fun d => !isBreak d with
      | [] => some ⟨joined ++ line, none, [], []⟩
      | ending :: following =>
        match _hlines : EmptyLines.read (some indent) 0 following with
        | none => none
        | some next =>
          (readLines isFolded indent ⟨some ending, isBlank c⟩ next).map fun b =>
            { b with text := joined ++ line ++ b.text }
termination_by lines.rest.length
decreasing_by
  have hnext := EmptyLines.length_read_le _hlines
  have hrest := (List.dropWhile_sublist (l := rest) fun d => !isBreak d).length_le
  rw [_hrest] at hrest
  simp only [_h, List.length_cons] at *
  omega

/-- Reads a block scalar after its indicator. The indentation of its parent, if it has one, is added
to the indentation that the header gives; without the latter, the widest of the first lines
counts. -/
def readBlock (isFolded : Bool) (parent : Option Nat) (text : List Char) :
    Option (List Char × List Char) := do
  let (header, rest) ← BlockHeader.read text
  let given := header.indentation.map (parent.getD 0 + ·)
  let lines ← EmptyLines.read given 0 rest
  let indent := given.getD (max lines.widest (max ((parent.map (· + 1)).getD 0) 1))
  let block ← readLines isFolded indent ⟨none, false⟩ lines
  return match header.chomping with
    | .strip => (block.text, block.rest)
    | .clip => (block.text ++ block.ending.toList, block.rest)
    | .keep => (block.text ++ block.ending.toList ++ block.breaks, block.rest)

end Eligibility.Yaml
