import Eligibility.CriteriaError
import Eligibility.Proofs.Runs
import Eligibility.Resolver.Outage

/-!
# Demands

Compiling and rendering go through the parts of a rule or of a tree in order. What a part demands
can be told beforehand: it may have a shape that is refused at once, it may need a name to be
resolved, and it may have a shape that is refused only after that. A run stops at the first demand
that fails, and by then it has asked for the names of the demands before, each once and in order.

`MetAll` and `FailsFirst` say this without regard to how a run is programmed, for resolvers that
may answer as they like. A computation that `Settles` a list of demands comes to just what they say
(`Settles.eq_ok_iff`, `Settles.eq_error_iff`), and sequencing computations appends their demands.
-/

namespace Eligibility

variable {σ α β : Type}

/-! ## What a part demands -/

/-- What has to hold of a part for a run to go past it. -/
structure Demand where
  /-- Why the part is refused before anything is asked. -/
  refused : Option ShapeError
  /-- The name that has to be resolved. -/
  name : Option String
  /-- Why the part is refused after its name was resolved. -/
  refusedLate : Option ShapeError

/-- The name, if there is one, is resolved by a single question. -/
inductive Asked (resolver : Resolver σ) : Option String → σ → σ → Prop where
  /-- There is nothing to ask. -/
  | nothing {s : σ} : Asked resolver none s s
  /-- The question is answered. -/
  | answered {name id : String} {s t : σ} (hcall : resolver name s = .ok id t) :
      Asked resolver (some name) s t

/-- A demand is met. -/
structure Demand.Met (resolver : Resolver σ) (d : Demand) (s t : σ) : Prop where
  /-- The shape is not refused. -/
  accepted : d.refused = none
  /-- The name is resolved. -/
  asked : Asked resolver d.name s t
  /-- The shape is not refused after that. -/
  acceptedLate : d.refusedLate = none

/-- A demand fails with an error, after these questions. -/
inductive Demand.Fails (resolver : Resolver σ) (d : Demand) (s : σ) :
    CriteriaError → List String → σ → Prop where
  /-- The shape is refused, and nothing is asked. -/
  | refused {e : ShapeError} (h : d.refused = some e) : Fails resolver d s (.shape e) [] s
  /-- The name is not resolved. -/
  | unresolved {name : String} {e : LookupError} {t : σ} (h : d.refused = none)
      (hname : d.name = some name) (hcall : resolver name s = .error e t) :
      Fails resolver d s (.resolution name e) [name] t
  /-- The shape is refused after the name was resolved. -/
  | refusedLate {e : ShapeError} {t : σ} (h : d.refused = none) (hasked : Asked resolver d.name s t)
      (hlate : d.refusedLate = some e) : Fails resolver d s (.shape e) d.name.toList t

/-- Demands are met one after the other. -/
inductive MetAll (resolver : Resolver σ) : List Demand → σ → σ → Prop where
  /-- Nothing is demanded. -/
  | nil {s : σ} : MetAll resolver [] s s
  /-- One demand, and those after it. -/
  | cons {d : Demand} {ds : List Demand} {s t u : σ} (h : d.Met resolver s t)
      (hs : MetAll resolver ds t u) : MetAll resolver (d :: ds) s u

/-- Of some demands the first ones are met, and the one after these fails. The calls are the
questions up to then. -/
def FailsFirst (resolver : Resolver σ) (ds : List Demand) (s : σ) (error : CriteriaError)
    (calls : List String) (u : σ) : Prop :=
  ∃ before d after t asked, ds = before ++ d :: after ∧ MetAll resolver before s t ∧
    d.Fails resolver t error asked u ∧ calls = before.filterMap Demand.name ++ asked

theorem Demand.names_cons (d : Demand) (ds : List Demand) :
    (d :: ds).filterMap name = d.name.toList ++ ds.filterMap name := by
  cases hname : d.name <;> simp [hname]

theorem failsFirst_cons {resolver : Resolver σ} {d : Demand} {ds : List Demand} {s u : σ}
    {error : CriteriaError} {calls : List String} :
    FailsFirst resolver (d :: ds) s error calls u ↔
      d.Fails resolver s error calls u ∨
        ∃ t more, d.Met resolver s t ∧ FailsFirst resolver ds t error more u ∧
          calls = d.name.toList ++ more := by
  constructor
  · rintro ⟨before, x, after, t, asked, heq, hbefore, hfails, rfl⟩
    rcases List.cons_eq_append_iff.1 heq with ⟨rfl, heq⟩ | ⟨before, rfl, rfl⟩
    · cases heq
      cases hbefore
      exact .inl (by simpa using hfails)
    · cases hbefore with
      | cons hd hbefore =>
        refine .inr ⟨_, _, hd, ⟨before, x, after, t, asked, rfl, hbefore, hfails, rfl⟩, ?_⟩
        simp [Demand.names_cons]
  · rintro (hfails | ⟨t, more, hd, ⟨before, x, after, v, asked, rfl, hbefore, hfails, rfl⟩, rfl⟩)
    · exact ⟨[], d, ds, s, calls, rfl, .nil, hfails, rfl⟩
    · refine ⟨d :: before, x, after, v, asked, rfl, .cons hd hbefore, hfails, ?_⟩
      cases hname : d.name <;> simp [hname]

/-! ## Settling demands -/

/-- Asks for a name, if there is one. -/
def Resolver.askFor (resolver : Resolver σ) : Option String → Criteria σ Unit
  | none => pure ()
  | some name => do
    let _ ← resolver.ask name

/-- Fails if a shape is refused. -/
def refuse : Option ShapeError → Criteria σ Unit
  | none => pure ()
  | some e => throw (.shape e)

/-- Does what a demand demands, and nothing else. -/
def Demand.settle (resolver : Resolver σ) (d : Demand) : Criteria σ Unit := do
  refuse d.refused
  resolver.askFor d.name
  refuse d.refusedLate

/-- Apart from its result, the computation does what the demands demand. -/
def Settles (resolver : Resolver σ) (x : Criteria σ α) (ds : List Demand) : Prop :=
  (fun _ => ()) <$> x = forM ds (Demand.settle resolver)

namespace Settles

variable {resolver : Resolver σ} {x : Criteria σ α} {f : α → Criteria σ β} {ds es : List Demand}

theorem pure (a : α) : Settles resolver (pure a) [] := rfl

theorem single {d : Demand} (h : (fun _ => ()) <$> x = d.settle resolver) :
    Settles resolver x [d] := by
  simpa [Settles] using h

theorem bind (hx : Settles resolver x ds) (hf : ∀ a, Settles resolver (f a) es) :
    Settles resolver (x >>= f) (ds ++ es) := by
  have hrest : ∀ a, (fun _ => ()) <$> f a = forM es (Demand.settle resolver) := hf
  have hfirst : (fun _ => ()) <$> x = forM ds (Demand.settle resolver) := hx
  calc (fun _ => ()) <$> (x >>= f)
      = x >>= fun _ => forM es (Demand.settle resolver) := by simp [map_bind, hrest]
    _ = ((fun _ => ()) <$> x) >>= fun _ => forM es (Demand.settle resolver) := by simp
    _ = forM (ds ++ es) (Demand.settle resolver) := by rw [hfirst, List.forM_append]

/-- What is done with the result does not matter. -/
theorem bind_pure (hx : Settles resolver x ds) (g : α → β) :
    Settles resolver (x >>= fun a => Pure.pure (g a)) ds := by
  simpa using hx.bind fun a => .pure (g a)

theorem mapM {ι : Type} {f : ι → Criteria σ α} {demands : ι → List Demand} (xs : List ι)
    (hf : ∀ x ∈ xs, Settles resolver (f x) (demands x)) :
    Settles resolver (xs.mapM f) (xs.flatMap demands) := by
  induction xs with
  | nil => exact .pure []
  | cons x xs ih =>
    rw [List.mapM_cons, List.flatMap_cons]
    exact (hf x List.mem_cons_self).bind fun _ =>
      (ih fun y hy => hf y (List.mem_cons_of_mem x hy)).bind_pure _

/-- One demand for each. -/
theorem mapM_map {ι : Type} {f : ι → Criteria σ α} {demand : ι → Demand} (xs : List ι)
    (hf : ∀ x, Settles resolver (f x) [demand x]) :
    Settles resolver (xs.mapM f) (xs.map demand) := by
  rw [List.map_eq_flatMap]
  exact .mapM xs fun x _ => hf x

end Settles

/-! ## The calls of a run -/

section

variable {resolver : Resolver σ} {calls : List String} {s : σ} {r : Recorded σ}
  {error : CriteriaError}

theorem Resolver.recorded_ask_eq_ok {name id : String} :
    resolver.recorded.ask name ⟨s, calls⟩ = .ok id r ↔
      ∃ t, resolver name s = .ok id t ∧ r = ⟨t, calls ++ [name]⟩ := by
  unfold ask EStateM.adaptExcept recorded
  cases resolver name s <;> simp [eq_comm, and_assoc]

theorem Resolver.recorded_ask_eq_error {name : String} :
    resolver.recorded.ask name ⟨s, calls⟩ = .error error r ↔
      ∃ e t, resolver name s = .error e t ∧ error = .resolution name e ∧
        r = ⟨t, calls ++ [name]⟩ := by
  unfold ask EStateM.adaptExcept recorded
  cases resolver name s <;> simp [eq_comm, and_assoc]

theorem Resolver.askFor_eq_ok {name : Option String} :
    resolver.recorded.askFor name ⟨s, calls⟩ = .ok () r ↔
      ∃ t, Asked resolver name s t ∧ r = ⟨t, calls ++ name.toList⟩ := by
  cases name with
  | none =>
    constructor
    · intro h
      cases h
      exact ⟨s, .nothing, by simp⟩
    · rintro ⟨t, hasked, rfl⟩
      cases hasked
      simp [askFor, pure, EStateM.pure]
  | some name =>
    constructor
    · intro h
      obtain ⟨id, r', hask, h⟩ := bind_eq_ok.1 h
      obtain ⟨t, hcall, rfl⟩ := recorded_ask_eq_ok.1 hask
      cases h
      exact ⟨t, .answered hcall, rfl⟩
    · rintro ⟨t, hasked, rfl⟩
      cases hasked with
      | answered hcall => exact bind_eq_ok.2 ⟨_, _, recorded_ask_eq_ok.2 ⟨t, hcall, rfl⟩, rfl⟩

theorem Resolver.askFor_eq_error {name : Option String} :
    resolver.recorded.askFor name ⟨s, calls⟩ = .error error r ↔
      ∃ x e t, name = some x ∧ resolver x s = .error e t ∧ error = .resolution x e ∧
        r = ⟨t, calls ++ [x]⟩ := by
  cases name with
  | none => simp [askFor, pure, EStateM.pure]
  | some name =>
    have hask : resolver.recorded.askFor (some name) ⟨s, calls⟩ = .error error r ↔
        resolver.recorded.ask name ⟨s, calls⟩ = .error error r := by
      unfold askFor
      rw [bind_eq_error]
      simp [pure, EStateM.pure]
    rw [hask, recorded_ask_eq_error]
    simp

theorem refuse_eq_ok {shape : Option ShapeError} {s t : σ} :
    refuse shape s = .ok () t ↔ shape = none ∧ t = s := by
  cases shape with
  | none => simp [refuse, pure, EStateM.pure, eq_comm]
  | some e => simp [refuse, throw_apply]

theorem refuse_eq_error {shape : Option ShapeError} {s t : σ} :
    refuse shape s = .error error t ↔ ∃ e, shape = some e ∧ error = .shape e ∧ t = s := by
  cases shape with
  | none => simp [refuse, pure, EStateM.pure]
  | some e => simp [refuse, throw_apply, eq_comm]

namespace Demand

theorem settle_eq_ok {d : Demand} :
    d.settle resolver.recorded ⟨s, calls⟩ = .ok () r ↔
      ∃ t, d.Met resolver s t ∧ r = ⟨t, calls ++ d.name.toList⟩ := by
  constructor
  · intro h
    obtain ⟨_, _, hfirst, h⟩ := bind_eq_ok.1 h
    obtain ⟨haccepted, rfl⟩ := refuse_eq_ok.1 hfirst
    obtain ⟨_, _, hask, hlast⟩ := bind_eq_ok.1 h
    obtain ⟨t, hasked, rfl⟩ := Resolver.askFor_eq_ok.1 hask
    obtain ⟨hlate, rfl⟩ := refuse_eq_ok.1 hlast
    exact ⟨t, ⟨haccepted, hasked, hlate⟩, rfl⟩
  · rintro ⟨t, ⟨haccepted, hasked, hlate⟩, rfl⟩
    refine bind_eq_ok.2 ⟨(), _, refuse_eq_ok.2 ⟨haccepted, rfl⟩, ?_⟩
    refine bind_eq_ok.2 ⟨(), _, Resolver.askFor_eq_ok.2 ⟨t, hasked, rfl⟩, ?_⟩
    exact refuse_eq_ok.2 ⟨hlate, rfl⟩

theorem settle_eq_error {d : Demand} :
    d.settle resolver.recorded ⟨s, calls⟩ = .error error r ↔
      ∃ asked t, d.Fails resolver s error asked t ∧ r = ⟨t, calls ++ asked⟩ := by
  constructor
  · intro h
    rcases bind_eq_error.1 h with h | ⟨_, _, hfirst, h⟩
    · obtain ⟨e, hrefused, rfl, rfl⟩ := refuse_eq_error.1 h
      exact ⟨[], s, .refused hrefused, by simp⟩
    · obtain ⟨haccepted, rfl⟩ := refuse_eq_ok.1 hfirst
      rcases bind_eq_error.1 h with h | ⟨_, _, hask, h⟩
      · obtain ⟨name, e, t, hname, hcall, rfl, rfl⟩ := Resolver.askFor_eq_error.1 h
        exact ⟨[name], t, .unresolved haccepted hname hcall, rfl⟩
      · obtain ⟨t, hasked, rfl⟩ := Resolver.askFor_eq_ok.1 hask
        obtain ⟨e, hlate, rfl, rfl⟩ := refuse_eq_error.1 h
        exact ⟨_, t, .refusedLate haccepted hasked hlate, rfl⟩
  · rintro ⟨asked, t, hfails, rfl⟩
    cases hfails with
    | refused hrefused =>
      exact bind_eq_error.2 (.inl (refuse_eq_error.2 ⟨_, hrefused, rfl, by simp⟩))
    | unresolved haccepted hname hcall =>
      refine bind_eq_error.2 (.inr ⟨(), _, refuse_eq_ok.2 ⟨haccepted, rfl⟩, ?_⟩)
      exact bind_eq_error.2 (.inl (Resolver.askFor_eq_error.2 ⟨_, _, _, hname, hcall, rfl, rfl⟩))
    | refusedLate haccepted hasked hlate =>
      refine bind_eq_error.2 (.inr ⟨(), _, refuse_eq_ok.2 ⟨haccepted, rfl⟩, ?_⟩)
      refine bind_eq_error.2 (.inr ⟨(), _, Resolver.askFor_eq_ok.2 ⟨t, hasked, rfl⟩, ?_⟩)
      exact refuse_eq_error.2 ⟨_, hlate, rfl, rfl⟩

end Demand

theorem settleAll_eq_ok {ds : List Demand} :
    forM ds (Demand.settle resolver.recorded) ⟨s, calls⟩ = .ok () r ↔
      ∃ t, MetAll resolver ds s t ∧ r = ⟨t, calls ++ ds.filterMap Demand.name⟩ := by
  -- The calls vary as well: each demand adds its own to those of the demands before it.
  induction ds generalizing s calls with
  | nil =>
    constructor
    · intro h
      cases h
      exact ⟨s, .nil, by simp⟩
    · rintro ⟨t, hmet, rfl⟩
      cases hmet
      simp [pure, EStateM.pure]
  | cons d ds ih =>
    rw [Demand.names_cons]
    constructor
    · intro h
      obtain ⟨_, _, hfirst, h⟩ := bind_eq_ok.1 h
      obtain ⟨t, hd, rfl⟩ := Demand.settle_eq_ok.1 hfirst
      obtain ⟨u, hds, rfl⟩ := ih.1 h
      exact ⟨u, .cons hd hds, by simp⟩
    · rintro ⟨u, hmet, rfl⟩
      cases hmet with
      | cons hd hds =>
        refine bind_eq_ok.2 ⟨(), _, Demand.settle_eq_ok.2 ⟨_, hd, rfl⟩, ?_⟩
        exact ih.2 ⟨u, hds, by simp⟩

theorem settleAll_eq_error {ds : List Demand} :
    forM ds (Demand.settle resolver.recorded) ⟨s, calls⟩ = .error error r ↔
      ∃ asked t, FailsFirst resolver ds s error asked t ∧ r = ⟨t, calls ++ asked⟩ := by
  induction ds generalizing s calls with
  | nil =>
    constructor
    · intro h
      cases h
    · rintro ⟨_, _, ⟨before, d, after, _, _, heq, _⟩, _⟩
      simp at heq
  | cons d ds ih =>
    simp only [failsFirst_cons]
    constructor
    · intro h
      rcases bind_eq_error.1 h with h | ⟨_, _, hfirst, h⟩
      · obtain ⟨asked, t, hfails, rfl⟩ := Demand.settle_eq_error.1 h
        exact ⟨asked, t, .inl hfails, rfl⟩
      · obtain ⟨t, hd, rfl⟩ := Demand.settle_eq_ok.1 hfirst
        obtain ⟨more, u, hmore, rfl⟩ := ih.1 h
        exact ⟨_, u, .inr ⟨t, more, hd, hmore, rfl⟩, by simp⟩
    · rintro ⟨asked, u, hfails | ⟨t, more, hd, hmore, rfl⟩, rfl⟩
      · exact bind_eq_error.2 (.inl (Demand.settle_eq_error.2 ⟨asked, u, hfails, rfl⟩))
      · refine bind_eq_error.2 (.inr ⟨(), _, Demand.settle_eq_ok.2 ⟨t, hd, rfl⟩, ?_⟩)
        exact ih.2 ⟨more, u, hmore, by simp⟩

/-- A computation that settles demands succeeds exactly if they are all met, and then it has asked
for all their names. -/
theorem Settles.eq_ok_iff {x : Criteria (Recorded σ) α} {ds : List Demand}
    (h : Settles resolver.recorded x ds) {asked : List String} {t : σ} :
    (∃ a, x ⟨s, []⟩ = .ok a ⟨t, asked⟩) ↔
      MetAll resolver ds s t ∧ asked = ds.filterMap Demand.name := by
  have hrun : (∃ a, x ⟨s, []⟩ = .ok a ⟨t, asked⟩) ↔
      forM ds (Demand.settle resolver.recorded) ⟨s, []⟩ = .ok () ⟨t, asked⟩ := by
    rw [← h, map_eq_ok]
    simp
  rw [hrun, settleAll_eq_ok]
  simp only [List.nil_append, Recorded.mk.injEq]
  constructor
  · rintro ⟨u, hmet, rfl, rfl⟩
    exact ⟨hmet, rfl⟩
  · rintro ⟨hmet, rfl⟩
    exact ⟨t, hmet, rfl, rfl⟩

/-- A computation that settles demands fails exactly with the first of them that fails. -/
theorem Settles.eq_error_iff {x : Criteria (Recorded σ) α} {ds : List Demand}
    (h : Settles resolver.recorded x ds) {asked : List String} {t : σ} :
    x ⟨s, []⟩ = .error error ⟨t, asked⟩ ↔ FailsFirst resolver ds s error asked t := by
  have hrun : x ⟨s, []⟩ = .error error ⟨t, asked⟩ ↔
      forM ds (Demand.settle resolver.recorded) ⟨s, []⟩ = .error error ⟨t, asked⟩ := by
    rw [← h, map_eq_error]
  rw [hrun, settleAll_eq_error]
  simp only [List.nil_append, Recorded.mk.injEq]
  constructor
  · rintro ⟨_, _, hfails, rfl, rfl⟩
    exact hfails
  · intro hfails
    exact ⟨asked, t, hfails, rfl, rfl⟩

end

end Eligibility
