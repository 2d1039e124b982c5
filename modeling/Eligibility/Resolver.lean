import Eligibility.Directory

/-!
# Resolvers

A `Resolver` answers for a name with an id, or for an id with a name, and may fail. It may keep a
state of type `σ` from one question to the next; then its answers may depend on all that it was
asked before, and a failed question changes the state too.
-/

namespace Eligibility

/-- Why a name is not resolved. -/
inductive LookupError where
  /-- There is nothing of that name. -/
  | notFound (name : String)
  /-- The name could not be looked up. -/
  | unavailable (name reason : String)
deriving DecidableEq

/-- The text that reports an error. -/
def LookupError.message : LookupError → String
  | notFound name => s!"'{name}' was not found"
  | unavailable name reason => s!"unable to look up '{name}': {reason}"

/-- Something that is asked for names. -/
abbrev Resolver (σ : Type) := String → EStateM LookupError σ String

variable {σ : Type}

/-- The resolver that gives a fixed answer for each name. -/
def Resolver.ofFunction (f : String → Except LookupError String) : Resolver σ := fun name s =>
  match f name with
  | .ok id => .ok id s
  | .error e => .error e s

/-- What a directory answers for a name. -/
def Directory.resolve (d : Directory) (name : String) : Except LookupError String :=
  match d.find? name with
  | some id => .ok id
  | none => .error (.notFound name)

/-- A directory as a resolver. -/
def Directory.resolver (d : Directory) : Resolver σ := Resolver.ofFunction d.resolve

end Eligibility
