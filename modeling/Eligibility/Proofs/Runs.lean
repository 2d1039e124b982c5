/-!
# Runs that succeed, and runs that fail

A sequence of computations with a state and errors succeeds if all of them do, each from the state
in which the one before it stopped, and it fails with the first of them that fails. These lemmas
take such a run apart, and put it together.
-/

namespace Eligibility

variable {ε σ α β : Type}

theorem bind_eq_ok {x : EStateM ε σ α} {f : α → EStateM ε σ β} {b : β} {s s' : σ} :
    (x >>= f) s = .ok b s' ↔ ∃ a t, x s = .ok a t ∧ f a t = .ok b s' := by
  constructor
  · intro h
    simp only [bind, EStateM.bind] at h
    split at h
    · rename_i a t hx
      exact ⟨a, t, hx, h⟩
    · cases h
  · rintro ⟨a, t, hx, hf⟩
    simp only [bind, EStateM.bind, hx, hf]

theorem bind_eq_error {x : EStateM ε σ α} {f : α → EStateM ε σ β} {e : ε} {s s' : σ} :
    (x >>= f) s = .error e s' ↔
      x s = .error e s' ∨ ∃ a t, x s = .ok a t ∧ f a t = .error e s' := by
  simp only [bind, EStateM.bind]
  cases x s with
  | ok a t => simp [and_assoc]
  | error e t => simp

theorem map_eq_ok {x : EStateM ε σ α} {f : α → β} {b : β} {s s' : σ} :
    (f <$> x) s = .ok b s' ↔ ∃ a, x s = .ok a s' ∧ f a = b := by
  constructor
  · intro h
    simp only [Functor.map, EStateM.map] at h
    split at h
    · rename_i a t hx
      cases h
      exact ⟨a, hx, rfl⟩
    · cases h
  · rintro ⟨a, hx, rfl⟩
    simp only [Functor.map, EStateM.map, hx]

theorem map_eq_error {x : EStateM ε σ α} {f : α → β} {e : ε} {s s' : σ} :
    (f <$> x) s = .error e s' ↔ x s = .error e s' := by
  simp only [Functor.map, EStateM.map]
  cases x s <;> simp

theorem throw_apply (e : ε) (s : σ) : (throw e : EStateM ε σ α) s = .error e s := rfl

theorem throw_bind (e : ε) (f : α → EStateM ε σ β) :
    (throw e : EStateM ε σ α) >>= f = throw e := rfl

theorem map_throw (f : α → β) (e : ε) : f <$> (throw e : EStateM ε σ α) = throw e := rfl

/-- If every run of `f` that succeeds gives the value of `g`, and tells that `P` holds, then so does
a run over a list. -/
theorem eq_map_of_mapM {f : α → EStateM ε σ β} {g : α → β} {P : α → Prop}
    (hf : ∀ x s y s', f x s = .ok y s' → y = g x ∧ P x) {xs : List α} {ys : List β} {s s' : σ}
    (h : xs.mapM f s = .ok ys s') : ys = xs.map g ∧ ∀ x ∈ xs, P x := by
  induction xs generalizing ys s with
  | nil =>
    cases h
    simp
  | cons x xs ih =>
    rw [List.mapM_cons] at h
    obtain ⟨y, t, hx, h⟩ := bind_eq_ok.1 h
    obtain ⟨zs, u, hxs, h⟩ := bind_eq_ok.1 h
    cases h
    obtain ⟨rfl, hP⟩ := hf x s y t hx
    obtain ⟨rfl, hPs⟩ := ih hxs
    exact ⟨rfl, by simpa using ⟨hP, hPs⟩⟩

/-- A run over a list in which no step fails or changes the state. -/
theorem mapM_eq_map {f : α → EStateM ε σ β} {g : α → β} {xs : List α} {s : σ}
    (hf : ∀ x ∈ xs, f x s = .ok (g x) s) : xs.mapM f s = .ok (xs.map g) s := by
  induction xs with
  | nil => rfl
  | cons x xs ih =>
    rw [List.mapM_cons]
    refine bind_eq_ok.2 ⟨g x, s, hf x List.mem_cons_self, ?_⟩
    exact bind_eq_ok.2 ⟨xs.map g, s, ih fun y hy => hf y (List.mem_cons_of_mem _ hy), rfl⟩

/-- What a run over a list gives comes from the elements of the list. -/
theorem mem_of_mapM {f : α → EStateM ε σ β} {xs : List α} {ys : List β} {s s' : σ}
    (h : xs.mapM f s = .ok ys s') {y : β} (hy : y ∈ ys) : ∃ x ∈ xs, ∃ t t', f x t = .ok y t' := by
  induction xs generalizing ys s with
  | nil =>
    cases h
    cases hy
  | cons x xs ih =>
    rw [List.mapM_cons] at h
    obtain ⟨z, t, hx, h⟩ := bind_eq_ok.1 h
    obtain ⟨zs, u, hxs, h⟩ := bind_eq_ok.1 h
    cases h
    rcases List.mem_cons.1 hy with rfl | hy
    · exact ⟨x, List.mem_cons_self, s, t, hx⟩
    · obtain ⟨x', hx', hrun⟩ := ih hxs hy
      exact ⟨x', List.mem_cons_of_mem x hx', hrun⟩

theorem mapM_congr {m : Type → Type} [Monad m] [LawfulMonad m] {f g : α → m β} {xs : List α}
    (h : ∀ x ∈ xs, f x = g x) : xs.mapM f = xs.mapM g := by
  induction xs with
  | nil => rfl
  | cons x xs ih =>
    rw [List.mapM_cons, List.mapM_cons, h x List.mem_cons_self,
      ih fun y hy => h y (List.mem_cons_of_mem x hy)]

end Eligibility
