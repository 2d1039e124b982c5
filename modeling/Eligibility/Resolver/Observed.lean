import Eligibility.Log
import Eligibility.Resolver.Cache

/-!
# Observed caches

A cached resolver that reports what it does: whether each question hits the cache, and how many
names are looked up in advance. Apart from the reports it is the cached resolver.
-/

namespace Eligibility

/-- The state of a cached resolver and its reports. -/
structure Observed (σ : Type) where
  /-- The state of the cached resolver. -/
  cache : Cache σ
  /-- The reports so far, in order. -/
  events : List Event

namespace Observed

variable {σ : Type}

/-- A cache that knows nothing yet, without reports. -/
def fresh (inner : σ) : Observed σ := ⟨Cache.fresh inner, []⟩

/-- One more report. -/
def report (s : Observed σ) (e : Event) : Observed σ := { s with events := s.events ++ [e] }

/-- What is reported about a question. -/
def questionEvent (s : Observed σ) (name : String) : Event :=
  if s.cache.known.contains name then .cacheHit name else .cacheMiss name

end Observed

namespace Resolver

variable {σ : Type}

/-- A resolver behind a cache that reports what it does. -/
def observed (inner : Resolver σ) : Resolver (Observed σ) := fun name s =>
  let events := s.events ++ [s.questionEvent name]
  match inner.cached name s.cache with
  | .ok id cache => .ok id ⟨cache, events⟩
  | .error e cache => .error e ⟨cache, events⟩

/-- Makes names known to an observed cache, up to the first failure. -/
def warmObserved (resolver : Resolver (Observed σ)) (names : List String) :
    EStateM LookupError (Observed σ) Unit := do
  let s ← get
  let pending := s.cache.pending names
  if pending.isEmpty then return ()
  else
    modify fun s => s.report (.warming pending.length)
    resolver.askAll pending

/-- Reports do not change the answers of a cached resolver, nor its state. -/
theorem observed_eq_cached (inner : Resolver σ) (name : String) (s : Observed σ) :
    (match inner.observed name s with
      | .ok id t => (EStateM.Result.ok id t.cache : EStateM.Result LookupError (Cache σ) String)
      | .error e t => .error e t.cache) = inner.cached name s.cache := by
  unfold observed
  cases inner.cached name s.cache <;> rfl

end Resolver

end Eligibility
