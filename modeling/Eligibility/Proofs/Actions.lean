import Eligibility.Program

/-!
# Runs of commands

A command is a sequence of actions that write to a transcript and use a host. Here the host is one
whose files and input are a state, so that a run of an action comes to a result: `Command.Ends` says
what an action comes to, with the transcript and the state of the host that it leaves. Showing
events never fails and writes nothing to the output.
-/

namespace Eligibility.Command

variable {τ α β : Type}

/-- An action that starts with a transcript and a state of the host comes to a result, and leaves a
transcript and a state. -/
def Ends (x : Action (StateM τ) α) (t : Transcript) (s : τ) (result : Except CommandError α)
    (t' : Transcript) (s' : τ) : Prop :=
  x.run.run t s = ((result, t'), s')

section

variable {x : Action (StateM τ) α} {f : α → Action (StateM τ) β} {t t' t'' : Transcript}
  {s s' s'' : τ}

theorem Ends.bind {a : α} {result : Except CommandError β} (hx : Ends x t s (.ok a) t' s')
    (hf : Ends (f a) t' s' result t'' s'') : Ends (x >>= f) t s result t'' s'' := by
  have hrun : (x >>= f).run.run t s = (f a).run.run t' s' := by
    have hx' : x t s = ((.ok a, t'), s') := hx
    simp only [Bind.bind, ExceptT.bind, ExceptT.mk, StateT.bind, ExceptT.run, StateT.run, hx']
    rfl
  rw [Ends, hrun]
  exact hf

theorem Ends.bind_error {e : CommandError} (hx : Ends x t s (.error e) t' s') :
    Ends (x >>= f) t s (.error e) t' s' := by
  have hx' : x t s = ((.error e, t'), s') := hx
  simp only [Ends, Bind.bind, ExceptT.bind, ExceptT.mk, StateT.bind, ExceptT.run, StateT.run, hx']
  rfl

end

/-! ## Writing -/

section

variable (t : Transcript) (s : τ)

end

/-! ## Reading -/

variable {host : Host (StateM τ)} {options : CommonOptions} {given : Option String}
  {s s' loaded : τ} {c : Configuration} {e : Expression} {t : Transcript}

/-- A text is given, or else it is the input of the host. -/
def Obtains (host : Host (StateM τ)) (given : Option String) (text : String) (s s' : τ) : Prop :=
  match given with
  | some given => given = text ∧ s' = s
  | none => host.input s = (.ok text, s')

/-- The commands load a configuration, and then read an expression. -/
def Reads (host : Host (StateM τ)) (options : CommonOptions) (given : Option String) (s : τ)
    (c : Configuration) (e : Expression) (s' : τ) : Prop :=
  ∃ loaded text,
    (Configuration.load host.files "." options.configuration).run s = (.ok c, loaded) ∧
      Obtains host given text loaded s' ∧ Expression.parse (trim text) = .ok e

section

variable {ε : Type} {x : EStateM ε (Observed Unit) α} {p q : Observed Unit}

end

/-! ## Commands -/

section

variable {variant : Variant} {p q : Observed Unit}

end

end Eligibility.Command
