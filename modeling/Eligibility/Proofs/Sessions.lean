import Eligibility.Proofs.Correspondence
import Eligibility.Proofs.Inverse
import Eligibility.Resolver.Outage

/-!
# Sessions with a cached resolver

A session is a sequence of operations over one cached resolver: questions, warming, compiling and
rendering. Each of them asks any number of questions and may stop at one that fails. To speak of
every point of a session, journals are kept on both sides of the cache; they change neither answers
nor states.

The resolver behind the cache may answer as it likes, and may change its mind. Still the cache knows
at every point what it was answered, and passes on a question as long as it was not answered
(`Session.watched_sound`).
-/

namespace Eligibility

variable {σ τ : Type}

/-! ## Journals -/

/-- A question, with its answer and the state that it left. -/
structure Answered (τ : Type) where
  /-- The name in question. -/
  name : String
  /-- The id, or why there is none. -/
  answer : Except LookupError String
  /-- The state of the resolver after the question. -/
  after : τ

/-- The state of a resolver with all questions that it was asked, in order. -/
structure Journaled (τ : Type) where
  /-- The state of the resolver. -/
  state : τ
  /-- The questions so far. -/
  journal : List (Answered τ)

/-- A resolver that keeps a journal. -/
def Resolver.journaled (r : Resolver τ) : Resolver (Journaled τ) := fun name j =>
  match r name j.state with
  | .ok id next => .ok id ⟨next, j.journal ++ [⟨name, .ok id, next⟩]⟩
  | .error e next => .error e ⟨next, j.journal ++ [⟨name, .error e, next⟩]⟩

/-- Some question for the name was answered with the id. -/
def Resolved (journal : List (Answered τ)) (name id : String) : Prop :=
  ∃ a ∈ journal, a.name = name ∧ a.answer = .ok id

/-- A name is not asked for any more once it was answered. -/
def AskedOnce (journal : List (Answered τ)) : Prop :=
  journal.Pairwise fun a b => a.name = b.name → ∀ id, a.answer ≠ .ok id

/-- The state that questions leave which begin in the given state. -/
def stateAfter (start : τ) (journal : List (Answered τ)) : τ :=
  (journal.getLast?.map Answered.after).getD start

theorem stateAfter_append (start : τ) (journal : List (Answered τ)) (a : Answered τ) :
    stateAfter start (journal ++ [a]) = a.after := by
  simp [stateAfter]

theorem resolved_append {journal : List (Answered τ)} {a : Answered τ} {name id : String} :
    Resolved (journal ++ [a]) name id ↔
      Resolved journal name id ∨ a.name = name ∧ a.answer = .ok id := by
  simp only [Resolved, List.mem_append, List.mem_singleton]
  constructor
  · rintro ⟨b, hb | rfl, h⟩
    · exact .inl ⟨b, hb, h⟩
    · exact .inr h
  · rintro (⟨b, hb, h⟩ | h)
    · exact ⟨b, .inl hb, h⟩
    · exact ⟨a, .inr rfl, h⟩

/-- A question that failed resolves nothing. -/
theorem resolved_append_error {journal : List (Answered τ)} {other : String} {e : LookupError}
    {next : τ} {name id : String} :
    Resolved (journal ++ [⟨other, .error e, next⟩]) name id ↔ Resolved journal name id := by
  simp [resolved_append]

/-! ## Faithful caches -/

/-- What a cache has in common with the history of the resolver behind it. -/
structure Cache.Faithful (p : Cache (Journaled σ)) : Prop where
  /-- The cache counts the questions that the resolver was asked. -/
  counted : p.lookups = p.inner.journal.length
  /-- The cache knows the answers of the resolver, and nothing else. -/
  known_iff : ∀ name id, p.known.find? name = some id ↔ Resolved p.inner.journal name id
  /-- The resolver is not asked again for what it answered. -/
  askedOnce : AskedOnce p.inner.journal

namespace Cache

variable {p : Cache (Journaled σ)} {name id : String} {e : LookupError} {next : σ}

theorem faithful_fresh (s : σ) : (fresh (⟨s, []⟩ : Journaled σ)).Faithful :=
  ⟨rfl, by simp [fresh, Directory.find?, Directory.empty, Resolved], List.Pairwise.nil⟩

/-- A cache after a question that it passed on and that was answered. -/
def learn (p : Cache (Journaled σ)) (name id : String) (next : σ) : Cache (Journaled σ) :=
  ⟨⟨next, p.inner.journal ++ [⟨name, .ok id, next⟩]⟩, p.known.insert name id, p.lookups + 1⟩

/-- A cache after a question that it passed on and that failed. -/
def fail (p : Cache (Journaled σ)) (name : String) (e : LookupError) (next : σ) :
    Cache (Journaled σ) :=
  ⟨⟨next, p.inner.journal ++ [⟨name, .error e, next⟩]⟩, p.known, p.lookups + 1⟩

/-- An unknown name has only failed so far. -/
theorem Faithful.not_resolved (h : p.Faithful) (hname : p.known.find? name = none) (id : String) :
    ¬ Resolved p.inner.journal name id := by
  rw [← h.known_iff, hname]
  exact nofun

theorem Faithful.askedOnce_append (h : p.Faithful) (hname : p.known.find? name = none)
    (answer : Except LookupError String) :
    AskedOnce (p.inner.journal ++ [⟨name, answer, next⟩]) := by
  refine List.pairwise_append.2 ⟨h.askedOnce, List.pairwise_singleton _ _, ?_⟩
  intro a ha b hb hsame id hid
  obtain rfl := List.mem_singleton.1 hb
  exact h.not_resolved hname id ⟨a, ha, hsame, hid⟩

theorem Faithful.learn (h : p.Faithful) (hname : p.known.find? name = none) :
    (p.learn name id next).Faithful where
  counted := by simp [Cache.learn, h.counted]
  known_iff := by
    intro other i
    simp only [Cache.learn, Directory.find?_insert, resolved_append, ← h.known_iff]
    split
    · rename_i heq
      simp [heq, hname]
    · rename_i hne
      simp [Ne.symm hne]
  askedOnce := h.askedOnce_append hname _

theorem Faithful.fail (h : p.Faithful) (hname : p.known.find? name = none) :
    (p.fail name e next).Faithful where
  counted := by simp [Cache.fail, h.counted]
  known_iff := by
    intro other i
    simp only [Cache.fail, resolved_append_error, h.known_iff]
  askedOnce := h.askedOnce_append hname _

/-- The cache without the journal behind it. -/
def erase (p : Cache (Journaled σ)) : Cache σ := ⟨p.inner.state, p.known, p.lookups⟩

end Cache

/-! ## Questions -/

/-- How a cache serves a question in the state `p`. -/
inductive Served (inner : Resolver σ) (p : Cache (Journaled σ)) :
    Answered (Cache (Journaled σ)) → Prop where
  /-- A name that was answered has the same id again; the resolver behind the cache is not asked,
  and nothing changes. -/
  | remembered {name id : String} (hbefore : Resolved p.inner.journal name id)
      (hsame : ∀ other, Resolved p.inner.journal name other → other = id) :
      Served inner p ⟨name, .ok id, p⟩
  /-- A name that was not answered yet is asked for, and its id is learnt. -/
  | learned {name id : String} {next : σ} (hbefore : ∀ id, ¬ Resolved p.inner.journal name id)
      (hcall : inner name p.inner.state = .ok id next) :
      Served inner p ⟨name, .ok id, p.learn name id next⟩
  /-- A name that was not answered yet is asked for, and if that fails, the cache knows what it knew
  before. -/
  | failed {name : String} {e : LookupError} {next : σ}
      (hbefore : ∀ id, ¬ Resolved p.inner.journal name id)
      (hcall : inner name p.inner.state = .error e next) :
      Served inner p ⟨name, .error e, p.fail name e next⟩

/-- What holds of a session at every point, and between the points. -/
structure Sound (inner : Resolver σ) (start : Cache (Journaled σ))
    (journal : List (Answered (Cache (Journaled σ)))) : Prop where
  /-- After the first questions, whichever number of them, the cache is faithful. -/
  faithful : ∀ before, before <+: journal → (stateAfter start before).Faithful
  /-- Each question is served in the state that the questions before it left. -/
  served : ∀ before a, before ++ [a] <+: journal → Served inner (stateAfter start before) a

/-- A session whose state is the one that its last question left. -/
structure Keeps (inner : Resolver σ) (start : Cache (Journaled σ))
    (j : Journaled (Cache (Journaled σ))) : Prop where
  /-- What holds of the questions so far. -/
  sound : Sound inner start j.journal
  /-- Nothing happened since the last question. -/
  state_eq : j.state = stateAfter start j.journal

namespace Keeps

variable {inner : Resolver σ} {start : Cache (Journaled σ)} {j : Journaled (Cache (Journaled σ))}
  {name id : String} {e : LookupError} {next : σ}

theorem faithful (h : Keeps inner start j) : j.state.Faithful :=
  h.state_eq ▸ h.sound.faithful j.journal List.prefix_rfl

theorem append (h : Keeps inner start j) {a : Answered (Cache (Journaled σ))}
    (hserved : Served inner j.state a) (hfaithful : a.after.Faithful) :
    Keeps inner start ⟨a.after, j.journal ++ [a]⟩ where
  sound := by
    constructor
    · intro before hbefore
      rcases List.prefix_concat_iff.1 hbefore with rfl | hbefore
      · rwa [stateAfter_append]
      · exact h.sound.faithful before hbefore
    · intro before b hbefore
      rcases List.prefix_concat_iff.1 hbefore with heq | hbefore
      · obtain ⟨rfl, rfl⟩ : before = j.journal ∧ b = a := by simpa using heq
        exact h.state_eq ▸ hserved
      · exact h.sound.served before b hbefore
  state_eq := (stateAfter_append start j.journal a).symm

/-- A name that the cache knows. -/
theorem remembered (h : Keeps inner start j) (hname : j.state.known.find? name = some id) :
    Keeps inner start ⟨j.state, j.journal ++ [⟨name, .ok id, j.state⟩]⟩ := by
  have hsame : ∀ other, Resolved j.state.inner.journal name other → other = id := by
    intro other hother
    rw [← h.faithful.known_iff, hname] at hother
    exact (Option.some.inj hother).symm
  exact h.append (.remembered ((h.faithful.known_iff name id).1 hname) hsame) h.faithful

/-- A name that the cache learns. -/
theorem learned (h : Keeps inner start j) (hname : j.state.known.find? name = none)
    (hcall : inner name j.state.inner.state = .ok id next) :
    Keeps inner start
      ⟨j.state.learn name id next, j.journal ++ [⟨name, .ok id, j.state.learn name id next⟩]⟩ :=
  h.append (.learned (h.faithful.not_resolved hname) hcall) (h.faithful.learn hname)

/-- A name that the cache fails to learn. -/
theorem failed (h : Keeps inner start j) (hname : j.state.known.find? name = none)
    (hcall : inner name j.state.inner.state = .error e next) :
    Keeps inner start
      ⟨j.state.fail name e next, j.journal ++ [⟨name, .error e, j.state.fail name e next⟩]⟩ :=
  h.append (.failed (h.faithful.not_resolved hname) hcall) (h.faithful.fail hname)

end Keeps

/-- A session beside the same session without journals. -/
def Mirrors (inner : Resolver σ) (start : Cache (Journaled σ))
    (j : Journaled (Cache (Journaled σ))) (p : Cache σ) : Prop :=
  j.state.erase = p ∧ Keeps inner start j

/-- Journals do not change the answers, and every question keeps what a session keeps. -/
theorem Resolver.matches_journaled (inner : Resolver σ) (start : Cache (Journaled σ)) :
    Resolver.Matches (Mirrors inner start) (Mirrors inner start) inner.journaled.cached.journaled
      inner.cached where
  answer := by
    rintro name j _ ⟨rfl, h⟩
    unfold Resolver.journaled Resolver.cached Cache.erase
    dsimp only
    cases hname : j.state.known.find? name with
    | some id => exact .ok ⟨rfl, h.remembered hname⟩
    | none =>
      dsimp only
      cases hcall : inner name j.state.inner.state with
      | ok id next => exact .ok ⟨rfl, h.learned hname hcall⟩
      | error e next => exact .error ⟨rfl, h.failed hname hcall⟩
  stop := fun _ _ h => h

/-! ## Operations -/

/-- What is done with a cached resolver. -/
inductive Operation where
  /-- Asks for a name. -/
  | resolve (name : String)
  /-- Makes names known. -/
  | warm (names : List String)
  /-- Compiles a rule. -/
  | compile (variant : Variant) (e : Expression)
  /-- Renders a tree. -/
  | render (t : Tree)

namespace Operation

/-- The state that an operation leaves, also if it fails. -/
def run (r : Resolver (Cache σ)) : Operation → Cache σ → Cache σ
  | resolve name, p => endState (r name p)
  | warm names, p => endState (r.warm names p)
  | compile variant e, p => endState (e.compile r variant p)
  | render t, p => endState (t.render r p)

/-- The same with a journal. -/
def watch (r : Resolver (Journaled (Cache τ))) :
    Operation → Journaled (Cache τ) → Journaled (Cache τ)
  | resolve name, j => endState (r name j)
  | warm names, j => endState (r.askAll (j.state.pending names) j)
  | compile variant e, j => endState (e.compile r variant j)
  | render t, j => endState (t.render r j)

variable {inner : Resolver σ} {start : Cache (Journaled σ)} {j : Journaled (Cache (Journaled σ))}
  {p : Cache σ}

theorem mirrors_watch (h : Mirrors inner start j p) (op : Operation) :
    Mirrors inner start (op.watch inner.journaled.cached.journaled j) (op.run inner.cached p) := by
  have hmatches := Resolver.matches_journaled inner start
  cases op with
  | resolve name => exact (hmatches.answer name j p h).endState hmatches.stop
  | warm names =>
    -- both sessions warm the same names, because both caches know the same
    obtain rfl : j.state.erase = p := h.1
    exact (hmatches.askAll (j.state.pending names) j _ h).endState hmatches.stop
  | compile variant e => exact (e.corresponds_compile hmatches j p h).endState hmatches.stop
  | render t => exact (t.corresponds_render hmatches j p h).endState hmatches.stop

theorem mirrors_foldl (h : Mirrors inner start j p) (ops : List Operation) :
    Mirrors inner start
      (ops.foldl (fun j op => op.watch inner.journaled.cached.journaled j) j)
      (ops.foldl (fun p op => op.run inner.cached p) p) := by
  induction ops generalizing j p with
  | nil => exact h
  | cons op ops ih => exact ih (mirrors_watch h op)

end Operation

/-! ## Sessions -/

namespace Session

/-- The state of a cached resolver after some operations. -/
def run (inner : Resolver σ) (s : σ) (ops : List Operation) : Cache σ :=
  ops.foldl (fun p op => op.run inner.cached p) (Cache.fresh s)

/-- The same with journals on both sides of the cache. -/
def watched (inner : Resolver σ) (s : σ) (ops : List Operation) :
    Journaled (Cache (Journaled σ)) :=
  ops.foldl (fun j op => op.watch inner.journaled.cached.journaled j) ⟨Cache.fresh ⟨s, []⟩, []⟩

/-- At every point of a session the cache is faithful to the resolver behind it, and a question is
passed on exactly if its name was not resolved before. -/
theorem watched_sound (inner : Resolver σ) (s : σ) (ops : List Operation) :
    (stateAfter (Cache.fresh ⟨s, []⟩) (watched inner s ops).journal).erase = run inner s ops ∧
      Sound inner (Cache.fresh ⟨s, []⟩) (watched inner s ops).journal := by
  have hstart : Mirrors inner (Cache.fresh ⟨s, []⟩) ⟨Cache.fresh ⟨s, []⟩, []⟩ (Cache.fresh s) := by
    refine ⟨rfl, ⟨?_, ?_⟩, rfl⟩
    · intro before hbefore
      obtain rfl := List.prefix_nil.1 hbefore
      exact Cache.faithful_fresh s
    · intro before a hbefore
      simp at hbefore
  obtain ⟨herase, hkeeps⟩ := Operation.mirrors_foldl hstart ops
  exact ⟨hkeeps.state_eq ▸ herase, hkeeps.sound⟩

/-- A source that is out of reach for one question is asked for twice, and the one that was answered
before it once. -/
theorem watched_sound_recovering :
    (run (Resolver.withOutages (Directory.ofPairs [("HR", "1"), ("Badges", "2")]).resolve)
        [⟨"HR", "timeout", some 1⟩]
        [.warm ["Badges", "HR", "Badges"],
          .compile .role (.logical .or [
            .comparison ⟨.equal, ⟨.account "Badges", "a"⟩, .single "x"⟩,
            .comparison ⟨.equal, ⟨.account "HR", "b"⟩, .single "x"⟩]),
          .resolve "HR"]).lookups = 3 ∧
      (stateAfter (Cache.fresh ⟨[⟨"HR", "timeout", some 1⟩], []⟩)
        (watched (Resolver.withOutages (Directory.ofPairs [("HR", "1"), ("Badges", "2")]).resolve)
          [⟨"HR", "timeout", some 1⟩]
          [.warm ["Badges", "HR", "Badges"],
            .compile .role (.logical .or [
              .comparison ⟨.equal, ⟨.account "Badges", "a"⟩, .single "x"⟩,
              .comparison ⟨.equal, ⟨.account "HR", "b"⟩, .single "x"⟩]),
            .resolve "HR"]).journal).Faithful := by
  have hsound := (watched_sound
    (Resolver.withOutages (Directory.ofPairs [("HR", "1"), ("Badges", "2")]).resolve)
    [⟨"HR", "timeout", some 1⟩]
    [.warm ["Badges", "HR", "Badges"],
      .compile .role (.logical .or [
        .comparison ⟨.equal, ⟨.account "Badges", "a"⟩, .single "x"⟩,
        .comparison ⟨.equal, ⟨.account "HR", "b"⟩, .single "x"⟩]),
      .resolve "HR"]).2
  constructor
  · decide +kernel
  · exact hsound.faithful _ List.prefix_rfl

end Session

end Eligibility
