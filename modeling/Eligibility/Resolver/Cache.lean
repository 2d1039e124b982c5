import Eligibility.Expression
import Eligibility.Resolver

/-!
# Cached resolvers

A cached resolver remembers what another resolver answered, so that a source that many comparisons
name is looked up once. Failures are not remembered: the next question for that name is passed on
again.
-/

namespace Eligibility

/-- The state of a cached resolver, around the state of the resolver behind it. -/
structure Cache (σ : Type) where
  /-- The state of the resolver behind the cache. -/
  inner : σ
  /-- What has been answered. -/
  known : Directory
  /-- How many questions were passed on. -/
  lookups : Nat

namespace Cache

variable {σ : Type}

/-- A cache that knows nothing yet. -/
def fresh (inner : σ) : Cache σ := ⟨inner, Directory.empty, 0⟩

/-- The names that are not known yet, each once. -/
def pending (s : Cache σ) (names : List String) : List String :=
  distinct (names.filter fun name => !s.known.contains name)

end Cache

namespace Resolver

variable {σ : Type}

/-- A resolver behind a cache. -/
def cached (inner : Resolver σ) : Resolver (Cache σ) := fun name s =>
  match s.known.find? name with
  | some id => .ok id s
  | none =>
    match inner name s.inner with
    | .ok id next => .ok id ⟨next, s.known.insert name id, s.lookups + 1⟩
    | .error e next => .error e ⟨next, s.known, s.lookups + 1⟩

/-- Asks for several names, up to the first failure. -/
def askAll (resolver : Resolver σ) : List String → EStateM LookupError σ Unit
  | [] => pure ()
  | name :: names => do
    let _ ← resolver name
    askAll resolver names

/-- Makes names known to a cached resolver, up to the first failure. -/
def warm (resolver : Resolver (Cache σ)) (names : List String) :
    EStateM LookupError (Cache σ) Unit := do
  let s ← get
  resolver.askAll (s.pending names)

end Resolver

end Eligibility
