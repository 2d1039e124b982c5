/-!
# Paths

A path is a text whose parts are separated by slashes. Empty parts and single dots name the place
where they stand, and two dots name the place above it.
-/

namespace Eligibility.Path

/-- The parts of characters between slashes. -/
def splitSlashes : List Char → List (List Char)
  | [] => [[]]
  | c :: rest =>
    if c = '/' then [] :: splitSlashes rest
    else
      match splitSlashes rest with
      | [] => [[c]]
      | part :: parts => (c :: part) :: parts

/-- The parts of a path. -/
def parts (path : String) : List String := (splitSlashes path.toList).map String.ofList

/-- Whether a path starts at the root. -/
def isAbsolute (path : String) : Bool := path.toList.head? == some '/'

/-- Whether a part names the place where it stands. -/
def isHere (part : String) : Bool := part == "" || part == "."

/-- The name of the file that a path leads to, unless it ends above some place. -/
def fileName? (path : String) : Option String :=
  match ((parts path).filter fun part => !isHere part).getLast? with
  | some name => if name = ".." then none else some name
  | none => none

/-- What follows the last dot of a file name, if something stands before the dot. -/
def extensionOfName (name : String) : String :=
  let reversed := name.toList.reverse
  match reversed.dropWhile (· != '.') with
  | [] | [_] => ""
  | _ => String.ofList (reversed.takeWhile (· != '.')).reverse

/-- The extension of the file that a path leads to; empty if it has none. -/
def extension (path : String) : String := ((fileName? path).map extensionOfName).getD ""

/-- The path of a name in a directory. -/
def join (base name : String) : String :=
  if base.isEmpty then name
  else if base.toList.getLast? = some '/' then base ++ name
  else base ++ "/" ++ name

end Eligibility.Path
