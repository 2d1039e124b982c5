import Eligibility.Json.Numbers

/-!
# JSON values

The data that a JSON text stands for. A number is kept as it is written, and the members of an
object in the order and with the repetitions that the text has. The escapes of a string may leave
half of a surrogate pair behind; such a string is well formed but stands for no text.

Readers of particular data decide what they make of repeated members, of texts that are none, and of
numbers beyond every range.
-/

namespace Eligibility

/-- A JSON value. -/
inductive Json where
  /-- The null value. -/
  | null
  /-- A truth value. -/
  | bool (value : Bool)
  /-- A number, as written. -/
  | number (spelling : Json.NumberText)
  /-- A string, with the text it stands for, if it stands for one. -/
  | string (text : Option String)
  /-- An array. -/
  | array (items : List Json)
  /-- An object: names with their values. -/
  | object (members : List (Option String × Json))

namespace Json

mutual

/-- How deeply arrays and objects are nested. -/
def depth : Json → Nat
  | .array items => 1 + depthItems items
  | .object members => 1 + depthMembers members
  | _ => 0

/-- The greatest depth among some values. -/
def depthItems : List Json → Nat
  | [] => 0
  | item :: items => max item.depth (depthItems items)

/-- The greatest depth among the values of some members. -/
def depthMembers : List (Option String × Json) → Nat
  | [] => 0
  | (_, value) :: members => max value.depth (depthMembers members)

end

end Json

end Eligibility
