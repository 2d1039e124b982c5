import Eligibility.Json.Parser
import Eligibility.Json.Printer
import Eligibility.Tree

/-!
# Criteria trees as JSON

How a criteria tree is written as JSON, and which JSON values are read as one.

Reading is more liberal than writing. Members may stand in any order, unknown ones are ignored, a
record may be an array of its fields, and a name of a connective, a predicate or a kind may be an
object with that name and `null`. A known member must not be repeated, with one exception: of the
members that give a leaf its value, the first counts.

The other members of a leaf are set aside while it is read, so they have to be plain data: texts
that are texts, numbers in range, and nesting within the bound for the whole tree. Ignored members
elsewhere are passed over whatever they hold.
-/

namespace Eligibility

namespace Json

/-- A string as JSON. -/
def ofText (text : String) : Json := .string (some text)

/-- A record as JSON. -/
def ofFields (fields : List (String × Json)) : Json :=
  .object (fields.map fun (name, value) => (some name, value))

/-- The text of a string. -/
def text? : Json → Option String
  | .string text => text
  | _ => none

/-- The name that a string gives, or an object whose one member has that name and no value. -/
def name? : Json → Option String
  | .string text => text
  | .object [(name, .null)] => name
  | _ => none

/-- The texts of an array of strings. -/
def texts? : Json → Option (List String)
  | .array items => items.mapM text?
  | _ => none

/-- The value of a member that may be missing but not repeated. -/
def member? (members : List (Option String × Json)) (name : String) : Option (Option Json) :=
  match members.filter fun m => m.1 == some name with
  | [] => some none
  | [m] => some (some m.2)
  | _ => none

/-- The values of the known fields of a record: by name from an object, by position from an array
with no more items than there are fields. -/
def fields? (known : List String) : Json → Option (List (Option Json))
  | .object members =>
    if members.all fun m => m.1.isSome then known.mapM (member? members) else none
  | .array items =>
    if items.length ≤ known.length then
      some (items.map some ++ List.replicate (known.length - items.length) none)
    else none
  | _ => none

mutual

/-- Whether a value is plain data: every string stands for a text and every number is in range. -/
def isPlain : Json → Bool
  | .string text => text.isSome
  | .number spelling => spelling.inRange
  | .array items => arePlain items
  | .object members => arePlainMembers members
  | _ => true

/-- Whether all items are plain data. -/
def arePlain : List Json → Bool
  | [] => true
  | item :: items => item.isPlain && arePlain items

/-- Whether all members are plain data, with their names. -/
def arePlainMembers : List (Option String × Json) → Bool
  | [] => true
  | (name, value) :: members => name.isSome && value.isPlain && arePlainMembers members

end

end Json

/-! ## Writing -/

/-- A literal as a member of a leaf. -/
def Literal.toMember : Literal → String × Json
  | .single value => ("stringValue", Json.ofText value)
  | .list values => ("values", .array (values.map Json.ofText))

/-- A key as JSON. -/
def Key.toJson (k : Key) : Json :=
  Json.ofFields
    ([("type", Json.ofText k.kind.wireName), ("property", Json.ofText k.property)] ++
      match k.sourceId with
      | some id => [("sourceId", Json.ofText id)]
      | none => [])

/-- A leaf as JSON. -/
def Leaf.toJson (l : Leaf) : Json :=
  Json.ofFields
    [("operation", Json.ofText l.operation.wireName), ("key", l.key.toJson), l.value.toMember]

/-- A group as JSON. -/
def Group.toJson (g : Group) : Json :=
  Json.ofFields
    [("operation", Json.ofText g.operation.wireName),
      ("children", .array (g.leaves.map Leaf.toJson))]

/-- A tree as JSON. -/
def Tree.toJson (t : Tree) : Json :=
  Json.ofFields
    [("operation", Json.ofText t.operation.wireName),
      ("children", .array (t.groups.map Group.toJson))]

/-- The compact text of a tree. -/
def Tree.compact (t : Tree) : String := t.toJson.compact

/-- The indented text of a tree. -/
def Tree.pretty (t : Tree) : String := t.toJson.pretty

/-! ## Reading -/

/-- The connective that JSON gives. -/
def Connective.ofJson? (j : Json) : Option Connective := j.name?.bind Connective.ofWireName?

/-- The predicate that JSON gives. -/
def Predicate.ofJson? (j : Json) : Option Predicate := j.name?.bind Predicate.ofWireName?

/-- The kind that JSON gives. -/
def KeyKind.ofJson? (j : Json) : Option KeyKind := j.name?.bind KeyKind.ofWireName?

/-- The id of a source that JSON gives, where a missing one may also be null. -/
def sourceIdOfJson? : Option Json → Option (Option String)
  | none => some none
  | some .null => some none
  | some j => j.text?.map some

/-- The key that JSON gives. -/
def Key.ofJson? (j : Json) : Option Key :=
  match j.fields? ["type", "property", "sourceId"] with
  | some [some kind, some property, sourceId] => do
    let kind ← KeyKind.ofJson? kind
    let property ← property.text?
    let sourceId ← sourceIdOfJson? sourceId
    return { kind, property, sourceId }
  | _ => none

/-- How deeply the members that are set aside in a leaf may be nested: a tree may have 127 levels of
arrays and objects, and a leaf is on the fifth. -/
def maxAsideDepth : Nat := 122

/-- Whether a member of a leaf can be set aside. -/
def canSetAside (m : Option String × Json) : Bool := m.2.isPlain && m.2.depth ≤ maxAsideDepth

/-- The literal that a member of a leaf gives; none if it is not one that can. -/
def Literal.ofMember? (m : Option String × Json) : Option Literal :=
  if m.1 = some "stringValue" then m.2.text?.map .single
  else if m.1 = some "values" then m.2.texts?.map .list
  else none

/-- The leaf that JSON gives. -/
def Leaf.ofJson? : Json → Option Leaf
  | .object members => do
    guard (members.all fun m => m.1.isSome)
    let operation ← (← Json.member? members "operation")
    let key ← (← Json.member? members "key")
    let aside := members.filter fun m => m.1 != some "operation" && m.1 != some "key"
    guard (aside.all canSetAside)
    let first ← aside.find? fun m => m.1 == some "stringValue" || m.1 == some "values"
    let operation ← Predicate.ofJson? operation
    let key ← Key.ofJson? key
    let value ← Literal.ofMember? first
    return { operation, key, value }
  | _ => none

/-- The group that JSON gives. -/
def Group.ofJson? (j : Json) : Option Group :=
  match j.fields? ["operation", "children"] with
  | some [some operation, some (.array leaves)] => do
    let operation ← Connective.ofJson? operation
    let leaves ← leaves.mapM Leaf.ofJson?
    return { operation, leaves }
  | _ => none

/-- The tree that JSON gives. -/
def Tree.ofJson? (j : Json) : Option Tree :=
  match j.fields? ["operation", "children"] with
  | some [some operation, some (.array groups)] => do
    let operation ← Connective.ofJson? operation
    let groups ← groups.mapM Group.ofJson?
    return { operation, groups }
  | _ => none

/-- The tree that a JSON text gives. -/
def Tree.parse? (text : String) : Option Tree := do
  let j ← Json.parse text
  Tree.ofJson? j

end Eligibility
