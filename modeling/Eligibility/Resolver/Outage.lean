import Eligibility.Resolver

/-!
# Recorded calls and outages

Two wrappers that show how a resolver is used: `Resolver.recorded` keeps the list of all questions,
and `Resolver.withOutages` fails for chosen names, for a number of times or for ever, before the
resolver behind it is asked.
-/

namespace Eligibility

/-- The state of a recorded resolver, around the state of the resolver behind it. -/
structure Recorded (σ : Type) where
  /-- The state of the resolver behind. -/
  inner : σ
  /-- The questions so far, in order. -/
  calls : List String

/-- A name that cannot be looked up for some time. -/
structure Outage where
  /-- The name in question. -/
  name : String
  /-- Why it cannot be looked up. -/
  reason : String
  /-- How many more questions fail; none if all do. -/
  remaining : Option Nat
deriving DecidableEq

/-- Whether the next question for the name fails. -/
def Outage.isActive (o : Outage) : Bool := o.remaining != some 0

/-- The outage after one more failure. -/
def Outage.spend (o : Outage) : Outage := { o with remaining := o.remaining.map (· - 1) }

namespace Resolver

variable {σ : Type}

/-- A resolver whose questions are recorded. -/
def recorded (inner : Resolver σ) : Resolver (Recorded σ) := fun name s =>
  match inner name s.inner with
  | .ok id next => .ok id ⟨next, s.calls ++ [name]⟩
  | .error e next => .error e ⟨next, s.calls ++ [name]⟩

/-- A resolver with outages. -/
def withOutages (answer : String → Except LookupError String) : Resolver (List Outage) :=
  fun name outages =>
    match outages.find? fun o => o.name == name && o.isActive with
    | some outage =>
      .error (.unavailable name outage.reason)
        (outages.map fun o => if o.name == name then o.spend else o)
    | none =>
      match answer name with
      | .ok id => .ok id outages
      | .error e => .error e outages

end Resolver

end Eligibility
