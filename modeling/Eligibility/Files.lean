/-!
# Access to files

Commands read and write whole text files through a `FileAccess`, which a program fills in with the
disk and a test with a tree in memory. Why an access fails is one of a few causes.
-/

namespace Eligibility

/-- Why a file cannot be read or written. -/
inductive FileError where
  /-- There is nothing at the path. -/
  | notFound
  /-- The path leads to a directory. -/
  | isADirectory
  /-- The path leads through a file. -/
  | notADirectory
  /-- The bytes of the file are no text. -/
  | invalidText
  /-- Another cause, as the system words it. -/
  | other (message : String)
deriving DecidableEq

/-- The text that reports an error. -/
def FileError.message : FileError → String
  | notFound => "no such file or directory"
  | isADirectory => "is a directory"
  | notADirectory => "not a directory"
  | invalidText => "the file is not valid UTF-8"
  | other message => message

/-- How files are read and written. -/
structure FileAccess (m : Type → Type) where
  /-- Reads the text of a file. -/
  read : String → m (Except FileError String)
  /-- Makes a text the content of a file, which may be there already. -/
  write : String → String → m (Except FileError Unit)

end Eligibility
