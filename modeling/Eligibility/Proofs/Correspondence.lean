import Eligibility.Expression.Compile
import Eligibility.Resolver.Cache
import Eligibility.Tree.Render

/-!
# Runs over two resolvers

Compiling, rendering and warming touch the state of a resolver only by asking it. So if two
resolvers answer alike from related states, and are left in related states, then the same holds of
the whole runs over them. One relation speaks of states from which a run goes on, a second one of
states in which it has stopped with an error: after its last question a run has less to keep.
-/

namespace Eligibility

variable {ε σ τ α β : Type}

/-! ## Results -/

/-- What a run comes to, apart from the state. -/
def outcomeOf : EStateM.Result ε σ α → Except ε α
  | .ok a _ => .ok a
  | .error e _ => .error e

/-- The state in which a run ends, also if it fails. -/
def endState : EStateM.Result ε σ α → σ
  | .ok _ s => s
  | .error _ s => s

/-- Two results with the same outcome and related states. -/
inductive Agree (R E : σ → τ → Prop) : EStateM.Result ε σ α → EStateM.Result ε τ α → Prop where
  /-- Both runs succeed. -/
  | ok {a : α} {s : σ} {t : τ} (h : R s t) : Agree R E (.ok a s) (.ok a t)
  /-- Both runs fail. -/
  | error {e : ε} {s : σ} {t : τ} (h : E s t) : Agree R E (.error e s) (.error e t)

/-- From related states the two runs have the same outcome, and they end in related states. -/
def Corresponds (R E : σ → τ → Prop) (x : EStateM ε σ α) (y : EStateM ε τ α) : Prop :=
  ∀ s t, R s t → Agree R E (x s) (y t)

variable {R E : σ → τ → Prop}

theorem Agree.outcomeOf_eq {x : EStateM.Result ε σ α} {y : EStateM.Result ε τ α}
    (h : Agree R E x y) : outcomeOf x = outcomeOf y := by
  cases h <;> rfl

theorem Agree.endState {x : EStateM.Result ε σ α} {y : EStateM.Result ε τ α}
    (h : Agree R E x y) (hstop : ∀ s t, R s t → E s t) : E (endState x) (endState y) := by
  cases h with
  | ok h => exact hstop _ _ h
  | error h => exact h

namespace Corresponds

theorem pure (a : α) : Corresponds R E (pure a : EStateM ε σ α) (pure a) :=
  fun _ _ h => .ok h

theorem throw (hstop : ∀ s t, R s t → E s t) (e : ε) :
    Corresponds R E (throw e : EStateM ε σ α) (throw e) :=
  fun s t h => .error (hstop s t h)

theorem bind {x : EStateM ε σ α} {y : EStateM ε τ α} {f : α → EStateM ε σ β}
    {g : α → EStateM ε τ β} (hx : Corresponds R E x y) (hf : ∀ a, Corresponds R E (f a) (g a)) :
    Corresponds R E (x >>= f) (y >>= g) := by
  intro s t h
  simp only [Bind.bind, EStateM.bind]
  generalize hs : x s = result, ht : y t = result'
  have hagree := hx s t h
  rw [hs, ht] at hagree
  cases hagree with
  | ok h' => exact hf _ _ _ h'
  | error h' => exact .error h'

end Corresponds

/-! ## Resolvers -/

/-- The two resolvers answer every question alike from related states, and leave related states. -/
structure Resolver.Matches (R E : σ → τ → Prop) (r : Resolver σ) (r' : Resolver τ) : Prop where
  /-- A single question. -/
  answer : ∀ name, Corresponds R E (r name) (r' name)
  /-- A run may stop anywhere. -/
  stop : ∀ s t, R s t → E s t

section

variable {r : Resolver σ} {r' : Resolver τ}

theorem Resolver.Matches.ask (h : r.Matches R E r') (name : String) :
    Corresponds R E (r.ask name) (r'.ask name) := by
  intro s t hst
  simp only [Resolver.ask, EStateM.adaptExcept]
  generalize hs : r name s = result, ht : r' name t = result'
  have hagree := h.answer name s t hst
  rw [hs, ht] at hagree
  cases hagree with
  | ok h' => exact .ok h'
  | error h' => exact .error h'

theorem Resolver.Matches.askAll (h : r.Matches R E r') (names : List String) :
    Corresponds R E (r.askAll names) (r'.askAll names) := by
  induction names with
  | nil => exact .pure ()
  | cons name names ih => exact (h.answer name).bind fun _ => ih

/-! ## Compiling -/

variable {variant : Variant}

theorem Comparison.corresponds_compile (h : r.Matches R E r') (c : Comparison) :
    Corresponds R E (c.compile r variant) (c.compile r' variant) := by
  unfold Comparison.compile
  split
  · exact .throw h.stop _
  · split
    · exact .pure _
    · exact (h.ask _).bind fun _ => .pure _

namespace Expression

theorem corresponds_compileLeaves (h : r.Matches R E r') (es : List Expression) :
    Corresponds R E (compileLeaves r variant es) (compileLeaves r' variant es) := by
  induction es with
  | nil => exact .pure []
  | cons e es ih =>
    cases e with
    | comparison c =>
      exact (c.corresponds_compile h).bind fun _ => ih.bind fun _ => .pure _
    | logical op children => exact .throw h.stop _

theorem corresponds_compileGroup (h : r.Matches R E r') (op : Connective) (es : List Expression) :
    Corresponds R E (compileGroup r variant op es) (compileGroup r' variant op es) :=
  (corresponds_compileLeaves h es).bind fun _ => .pure _

theorem corresponds_compileGroups (h : r.Matches R E r') (op : Connective) (es : List Expression) :
    Corresponds R E (compileGroups r variant op es) (compileGroups r' variant op es) := by
  induction es with
  | nil => exact .pure []
  | cons e es ih =>
    cases e with
    | comparison c =>
      exact (c.corresponds_compile h).bind fun _ => ih.bind fun _ => .pure _
    | logical inner children =>
      exact (corresponds_compileGroup h inner children).bind fun _ => ih.bind fun _ => .pure _

theorem corresponds_compile (h : r.Matches R E r') (e : Expression) :
    Corresponds R E (e.compile r variant) (e.compile r' variant) := by
  unfold compile
  split
  · exact .throw h.stop _
  · split
    · exact (Comparison.corresponds_compile h _).bind fun _ => .pure _
    · split
      · exact (corresponds_compileGroup h _ _).bind fun _ => .pure _
      · exact (corresponds_compileGroups h _ _).bind fun _ => .pure _

end Expression

/-! ## Rendering -/

theorem Leaf.corresponds_comparison (h : r.Matches R E r') (l : Leaf) :
    Corresponds R E (l.comparison r) (l.comparison r') := by
  have hscope : Corresponds R E (l.scope r) (l.scope r') := by
    unfold Leaf.scope
    split
    · exact .pure _
    · split
      · exact .throw h.stop _
      · exact (h.ask _).bind fun _ => .pure _
  refine hscope.bind fun scope => ?_
  split
  · exact .throw h.stop _
  · exact .pure _

theorem Group.corresponds_leafTexts (h : r.Matches R E r') (ls : List Leaf) :
    Corresponds R E (leafTexts r ls) (leafTexts r' ls) := by
  induction ls with
  | nil => exact .pure []
  | cons l ls ih => exact (l.corresponds_comparison h).bind fun _ => ih.bind fun _ => .pure _

theorem Group.corresponds_render (h : r.Matches R E r') (g : Group) :
    Corresponds R E (g.render r) (g.render r') := by
  unfold render
  split
  · exact .throw h.stop _
  · exact (corresponds_leafTexts h g.leaves).bind fun _ => .pure _

theorem Tree.corresponds_groupTexts (h : r.Matches R E r') (gs : List Group) :
    Corresponds R E (groupTexts r gs) (groupTexts r' gs) := by
  induction gs with
  | nil => exact .pure []
  | cons g gs ih => exact (g.corresponds_render h).bind fun _ => ih.bind fun _ => .pure _

theorem Tree.corresponds_render (h : r.Matches R E r') (t : Tree) :
    Corresponds R E (t.render r) (t.render r') := by
  unfold render
  split
  · exact .pure _
  · exact Group.corresponds_render h _
  · split
    · exact (Group.corresponds_leafTexts h _).bind fun _ => .pure _
    · exact (corresponds_groupTexts h _).bind fun _ => .pure _

end

end Eligibility
