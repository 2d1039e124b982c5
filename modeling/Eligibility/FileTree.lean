import Eligibility.Files
import Eligibility.Path

/-!
# Files in memory

A `FileTree` holds the files below a working directory. The directories above that one are there
too, and so is the root, but nothing else is in them.

A file whose bytes are no text has no text; it can be replaced but not read.
-/

namespace Eligibility

/-- Where a location is counted from. -/
inductive Base where
  /-- The root. -/
  | root
  /-- The directory so many levels above the working directory. -/
  | above (levels : Nat)
deriving DecidableEq

/-- A place for a file or a directory. -/
structure Location where
  /-- Where it is counted from. -/
  base : Base
  /-- The names from there, the last one first. -/
  names : List String
deriving DecidableEq

/-- What is at a location. -/
inductive Entry where
  /-- A directory. -/
  | directory
  /-- A file, with its text, if its bytes are a text. -/
  | file (text : Option String)
deriving DecidableEq

namespace Location

/-- The working directory. -/
def working : Location := ⟨.above 0, []⟩

/-- The directory above. -/
def parent : Location → Location
  | ⟨base, _ :: names⟩ => ⟨base, names⟩
  | ⟨.root, []⟩ => ⟨.root, []⟩
  | ⟨.above levels, []⟩ => ⟨.above (levels + 1), []⟩

/-- The place of a name in a directory. -/
def child (l : Location) (name : String) : Location := { l with names := name :: l.names }

/-- Where a path starts. -/
def start (path : String) : Location :=
  if Path.isAbsolute path then ⟨.root, []⟩ else working

end Location

/-- Files and directories with their places. -/
structure FileTree where
  /-- What is where; of entries for the same place the first counts. -/
  entries : List (Location × Entry)

namespace FileTree

/-- A working directory without files. -/
def empty : FileTree := ⟨[]⟩

/-- What is at a location. -/
def find? (t : FileTree) (l : Location) : Option Entry :=
  if l.names = [] then some .directory else t.entries.lookup l

/-- The tree in which a location holds the given entry. -/
def put (t : FileTree) (l : Location) (e : Entry) : FileTree := ⟨(l, e) :: t.entries⟩

/-- Follows the parts of a path from a location. -/
def walk (t : FileTree) (l : Location) : List String → Except FileError Location
  | [] => .ok l
  | part :: parts =>
    match t.find? l with
    | none => .error .notFound
    | some (.file _) => .error .notADirectory
    | some .directory =>
      if Path.isHere part then t.walk l parts
      else if part = ".." then t.walk l.parent parts
      else if (t.find? (l.child part)).isNone then .error .notFound
      else t.walk (l.child part) parts

/-- Where a path leads. -/
def locate (t : FileTree) (path : String) : Except FileError Location :=
  if path.isEmpty then .error .notFound else t.walk (Location.start path) (Path.parts path)

/-- Where a path whose last part need not be there leads: the parts before that part are followed. A
path that ends with a slash leads to a directory. -/
def locateNew (t : FileTree) (path : String) : Except FileError Location :=
  match (Path.parts path).reverse with
  | [] => .error .notFound
  | name :: before =>
    if name = "" && before.any (fun part => !Path.isHere part) then
      match t.walk (Location.start path) (before.dropWhile (· = "")).tail.reverse with
      | .ok _ => .error .isADirectory
      | .error e => .error e
    else if Path.isHere name || name = ".." then .error .notFound
    else
      match t.walk (Location.start path) before.reverse with
      | .ok directory =>
        match t.find? directory with
        | some .directory => .ok (directory.child name)
        | _ => .error .notADirectory
      | .error e => .error e

/-- The text of the file at a path. -/
def read (t : FileTree) (path : String) : Except FileError String :=
  match t.locate path with
  | .error e => .error e
  | .ok l =>
    match t.find? l with
    | some (.file (some text)) => .ok text
    | some (.file none) => .error .invalidText
    | some .directory => .error .isADirectory
    | none => .error .notFound

/-- The tree in which the file at a path has the given text. -/
def write (t : FileTree) (path text : String) : Except FileError FileTree :=
  match t.locate path with
  | .ok l =>
    if t.find? l = some .directory then .error .isADirectory
    else .ok (t.put l (.file (some text)))
  | .error .notFound =>
    match t.locateNew path with
    | .ok l => .ok (t.put l (.file (some text)))
    | .error e => .error e
  | .error e => .error e

/-- The tree with an entry at the end of some parts, and with the directories on the way. -/
def install (t : FileTree) (l : Location) (e : Entry) : List String → FileTree
  | [] => t
  | [part] => if Path.isHere part then t else t.put (l.child part) e
  | part :: parts =>
    if Path.isHere part then t.install l e parts
    else (t.put (l.child part) .directory).install (l.child part) e parts

/-- The tree with one more file, or with a directory if the path ends with a slash. -/
def add (t : FileTree) (path : String) (text : Option String) : FileTree :=
  let named := (Path.parts path).filter fun part => !Path.isHere part
  let isDirectory := path.toList.getLast? = some '/'
  t.install .working (if isDirectory then .directory else .file text) named

/-- Access to the files of a tree. -/
def access : FileAccess (StateM FileTree) where
  read path := fun t => (t.read path, t)
  write path text := fun t =>
    match t.write path text with
    | .ok next => (.ok (), next)
    | .error e => (.error e, t)

end FileTree

end Eligibility
