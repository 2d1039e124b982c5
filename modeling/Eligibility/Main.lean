import Eligibility.Program

/-!
# The program

Runs a command with the files and the input of the system. A command that fails gives the exit code
1, and wrong arguments give 2.
-/

namespace Eligibility.Program

/-- The cause of a failed access. -/
def fileError (e : IO.Error) : FileError :=
  match e with
  | .noFileOrDirectory _ _ _ => .notFound
  | .inappropriateType _ code _ => if code = 21 then .isADirectory else .notADirectory
  | e => .other (toString e)

/-- The text of some bytes. -/
def textOf (bytes : ByteArray) : Except FileError String :=
  match String.fromUTF8? bytes with
  | some text => .ok text
  | none => .error .invalidText

/-- The result of an access. -/
def attempt {α : Type} (x : IO α) : IO (Except FileError α) := do
  try
    return .ok (← x)
  catch e => return .error (fileError e)

/-- The bytes that are left of a stream, after some that were read. -/
partial def readAll (stream : IO.FS.Stream) (read : ByteArray) : IO ByteArray := do
  let bytes ← stream.read 65536
  if bytes.isEmpty then return read else readAll stream (read ++ bytes)

/-- The files and the input of the system. -/
def systemHost : Host IO where
  files :=
    { read := fun path => do
        match ← attempt (IO.FS.readBinFile path) with
        | .ok bytes => return textOf bytes
        | .error e => return .error e
      write := fun path text => attempt (IO.FS.writeFile path text) }
  input := do
    match ← attempt (do readAll (← IO.getStdin) .empty) with
    | .ok bytes => return textOf bytes
    | .error e => return .error e

/-- Runs a command. -/
def runCommand (c : Command) : IO UInt32 := do
  let (result, transcript) ← c.run systemHost
  IO.print transcript.output
  IO.eprint transcript.errors
  match result with
  | .ok () => return 0
  | .error e =>
    IO.eprintln s!"Error: {e.message}"
    for line in e.context do
      IO.eprintln s!"  {line}"
    return 1

end Eligibility.Program

/-- Does what the arguments ask for. -/
def main (arguments : List String) : IO UInt32 := do
  match Eligibility.Arguments.parse arguments with
  | some (.run command) => Eligibility.Program.runCommand command
  | some .version =>
    IO.println Eligibility.Program.version
    return 0
  | some .usage =>
    IO.println Eligibility.Program.usage
    return 0
  | none =>
    IO.eprintln Eligibility.Program.usage
    return 2
