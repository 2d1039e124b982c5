import Eligibility.Json
import Eligibility.Json.Strings

/-!
# Writing JSON

Two layouts of the same value. The compact one has no blanks. The indented one puts every item and
member on a line of its own, two blanks deeper than what holds it, with a blank after each colon;
an empty array or object stays on its line.

A string that stands for no text is written empty; no value built here holds one.
-/

namespace Eligibility.Json

/-- The spelling of a number. -/
def NumberText.text (t : NumberText) : List Char :=
  (if t.negative then ['-'] else []) ++ t.whole ++
    (if t.fraction.isEmpty then [] else '.' :: t.fraction) ++
    (if t.exponent.isEmpty then []
      else if t.negativeExponent then 'e' :: '-' :: t.exponent else 'e' :: t.exponent)

/-- A value that is neither a string nor composed. -/
def scalarText : Json → List Char
  | .bool true => "true".toList
  | .bool false => "false".toList
  | .number spelling => spelling.text
  | _ => "null".toList

mutual

/-- A value without blanks. -/
def compactText : Json → List Char
  | .string text => stringText (text.getD "")
  | .array items => '[' :: compactItems items ++ [']']
  | .object members => '\x7b' :: compactMembers members ++ ['\x7d']
  | value => scalarText value

/-- Items with commas between them. -/
def compactItems : List Json → List Char
  | [] => []
  | [item] => compactText item
  | item :: items => compactText item ++ ',' :: compactItems items

/-- Members with commas between them. -/
def compactMembers : List (Option String × Json) → List Char
  | [] => []
  | [(name, value)] => stringText (name.getD "") ++ ':' :: compactText value
  | (name, value) :: members =>
    stringText (name.getD "") ++ ':' :: (compactText value ++ ',' :: compactMembers members)

end

/-- The start of a line at some depth. -/
def newline (depth : Nat) : List Char := '\n' :: List.replicate (2 * depth) ' '

mutual

/-- A value with indentation, inside so many arrays and objects. -/
def prettyText (depth : Nat) : Json → List Char
  | .string text => stringText (text.getD "")
  | .array [] => ['[', ']']
  | .array items => '[' :: prettyItems (depth + 1) items ++ newline depth ++ [']']
  | .object [] => ['\x7b', '\x7d']
  | .object members => '\x7b' :: prettyMembers (depth + 1) members ++ newline depth ++ ['\x7d']
  | value => scalarText value

/-- Items, each on its line. -/
def prettyItems (depth : Nat) : List Json → List Char
  | [] => []
  | [item] => newline depth ++ prettyText depth item
  | item :: items => newline depth ++ prettyText depth item ++ ',' :: prettyItems depth items

/-- Members, each on its line. -/
def prettyMembers (depth : Nat) : List (Option String × Json) → List Char
  | [] => []
  | [(name, value)] =>
    newline depth ++ stringText (name.getD "") ++ ':' :: ' ' :: prettyText depth value
  | (name, value) :: members =>
    newline depth ++ stringText (name.getD "") ++
      ':' :: ' ' :: (prettyText depth value ++ ',' :: prettyMembers depth members)

end

/-- The compact text of a value. -/
def compact (value : Json) : String := String.ofList (compactText value)

/-- The indented text of a value. -/
def pretty (value : Json) : String := String.ofList (prettyText 0 value)

end Eligibility.Json
