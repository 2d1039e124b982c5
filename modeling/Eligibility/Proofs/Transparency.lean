import Eligibility.Proofs.Compilation
import Eligibility.Proofs.Correspondence
import Eligibility.Proofs.Inverse
import Eligibility.Resolver.Outage

/-!
# Caches are transparent

In front of a resolver that gives a fixed answer for each name, a cache changes nothing about a run
but the questions that are passed on: of the questions that the run asks, these are the first for
each name that is not known beforehand (`Resolver.compile_render_cached`).
-/

namespace Eligibility

/-! ## First occurrences -/

/-- Noting names one after the other adds the first occurrence of each that was not noted before. -/
theorem foldl_note (names seen : List String) :
    names.foldl (fun seen name => if name ∈ seen then seen else seen ++ [name]) seen =
      seen ++ (names.filter fun name => !seen.contains name).eraseDups := by
  induction names generalizing seen with
  | nil => simp
  | cons name rest ih =>
    rw [List.foldl_cons, ih]
    by_cases h : name ∈ seen
    · simp [h]
    · -- the name is new, so it is kept here and erased from the rest
      have hrest : (rest.filter fun other => !(seen ++ [name]).contains other) =
          (rest.filter fun other => !seen.contains other).filter fun other => !other == name := by
        rw [List.filter_filter]
        refine List.filter_congr fun other _ => ?_
        by_cases hother : other = name <;> simp [hother, List.contains_eq_mem]
      have hname : (!seen.contains name) = true := by simpa using h
      rw [if_neg h, hrest, List.filter_cons, if_pos hname, List.eraseDups_cons, List.append_assoc,
        List.singleton_append]

theorem distinct_eq_eraseDups (names : List String) : distinct names = names.eraseDups := by
  have hall : (names.filter fun name => !([] : List String).contains name) = names :=
    List.filter_eq_self.2 fun _ _ => rfl
  rw [distinct, foldl_note, hall, List.nil_append]

theorem mem_distinct {names : List String} {name : String} :
    name ∈ distinct names ↔ name ∈ names := by
  rw [distinct_eq_eraseDups, List.mem_eraseDups]

theorem nodup_foldl_note (names : List String) {seen : List String} (h : seen.Nodup) :
    (names.foldl (fun seen name => if name ∈ seen then seen else seen ++ [name]) seen).Nodup := by
  induction names generalizing seen with
  | nil => exact h
  | cons name rest ih =>
    rw [List.foldl_cons]
    split
    · exact ih h
    · rename_i hname
      refine ih (List.nodup_append.2 ⟨h, by simp, ?_⟩)
      intro other hother last hlast heq
      rw [List.mem_singleton.1 hlast] at heq
      exact hname (heq ▸ hother)

theorem nodup_distinct (names : List String) : (distinct names).Nodup :=
  nodup_foldl_note names List.nodup_nil

theorem distinct_append (names : List String) (name : String) :
    distinct (names ++ [name]) =
      if name ∈ names then distinct names else distinct names ++ [name] := by
  have hstep : distinct (names ++ [name]) =
      if name ∈ distinct names then distinct names else distinct names ++ [name] := by
    simp only [distinct, List.foldl_append]
    rfl
  simpa only [mem_distinct] using hstep

/-- Of the questions of a run, those that a cache passes on. -/
def passedOn (known : Directory) (calls : List String) : List String :=
  distinct (calls.filter fun name => !known.contains name)

theorem passedOn_append (known : Directory) (calls : List String) (name : String) :
    passedOn known (calls ++ [name]) =
      if known.contains name ∨ name ∈ calls then passedOn known calls
      else passedOn known calls ++ [name] := by
  unfold passedOn
  cases hknown : known.contains name with
  | true => simp [hknown]
  | false => simp [hknown, distinct_append]

/-! ## The two runs -/

variable {σ : Type} {f : String → Except LookupError String} {known : Directory}

/-- Of the questions of the direct run, the cache has passed on those that it had to. -/
abbrev Cache.PassesOn (known : Directory) (direct : Recorded Unit) (s : Cache (Recorded σ)) :
    Prop :=
  s.inner.calls = passedOn known direct.calls

/-- How a run goes on behind a cache that knew `known` when it began, beside the same run without
the cache: the states of the two resolvers after the same questions, none of which failed. -/
structure Cache.Tracks (f : String → Except LookupError String) (known : Directory)
    (direct : Recorded Unit) (s : Cache (Recorded σ)) : Prop where
  /-- The first question for each unknown name has been passed on. -/
  calls : s.PassesOn known direct
  /-- The cache knows what it knew when the run began, and what was asked since. -/
  contains_iff : ∀ name, s.known.contains name ↔ known.contains name ∨ name ∈ direct.calls
  /-- The cache knows right answers only. -/
  right : ∀ name id, s.known.find? name = some id → f name = .ok id

namespace Cache.Tracks

variable {direct : Recorded Unit} {s : Cache (Recorded σ)} {name id : String}

/-- A question that the cache answers. -/
theorem hit (h : Tracks f known direct s) (hname : s.known.contains name) :
    Tracks f known ⟨(), direct.calls ++ [name]⟩ s := by
  have hasked : known.contains name ∨ name ∈ direct.calls := (h.contains_iff name).1 hname
  refine ⟨?_, fun other => ?_, h.right⟩
  · show s.inner.calls = passedOn known (direct.calls ++ [name])
    rw [passedOn_append, if_pos hasked, h.calls]
  · rw [h.contains_iff, List.mem_append, List.mem_singleton, ← or_assoc]
    constructor
    · exact .inl
    · rintro (hother | rfl)
      · exact hother
      · exact hasked

/-- A question that is passed on leaves a trace, whether or not it is answered. -/
theorem calls_miss (h : Tracks f known direct s) (hname : s.known.contains name = false) :
    s.inner.calls ++ [name] = passedOn known (direct.calls ++ [name]) := by
  have hnew : ¬ (known.contains name ∨ name ∈ direct.calls) := fun hasked => by
    simp [(h.contains_iff name).2 hasked] at hname
  rw [passedOn_append, if_neg hnew, h.calls]

/-- A question that is passed on and answered. -/
theorem miss (h : Tracks f known direct s) (hname : s.known.contains name = false)
    (hf : f name = .ok id) (next : σ) :
    Tracks f known ⟨(), direct.calls ++ [name]⟩
      ⟨⟨next, s.inner.calls ++ [name]⟩, s.known.insert name id, s.lookups + 1⟩ := by
  refine ⟨h.calls_miss hname, fun other => ?_, fun other i hother => ?_⟩
  · have hcontains : (s.known.insert name id).contains other ↔
        s.known.contains other ∨ other = name := by
      unfold Directory.contains
      rw [Directory.find?_insert]
      split <;> simp [*]
    rw [hcontains, h.contains_iff, List.mem_append, List.mem_singleton, or_assoc]
  · rw [Directory.find?_insert] at hother
    split at hother
    · rename_i heq
      cases hother
      exact heq ▸ hf
    · exact h.right other i hother

end Cache.Tracks

namespace Resolver

variable {inner : Resolver σ}

/-- Every question is answered alike with and without the cache. -/
theorem Answers.matches_cached (hinner : inner.Answers f) (known : Directory) :
    Resolver.Matches (Cache.Tracks f known) (fun direct s => s.PassesOn known direct)
      (ofFunction f).recorded inner.recorded.cached where
  answer := by
    intro name direct s h
    unfold cached recorded ofFunction
    cases hfind : s.known.find? name with
    | some id =>
      have hname : s.known.contains name := by simp [Directory.contains, hfind]
      rw [h.right name id hfind]
      exact .ok (h.hit hname)
    | none =>
      have hname : s.known.contains name = false := by simp [Directory.contains, hfind]
      rcases hinner name s.inner.inner with ⟨id, next, hf, hcall⟩ | ⟨e, next, hf, hcall⟩
      · rw [hf, hcall]
        exact .ok (h.miss hname hf next)
      · rw [hf, hcall]
        exact .error (h.calls_miss hname)
  stop := fun _ _ h => h.calls

/-- What a run through a cache has in common with the run without it. -/
structure SameRun {ε α : Type} (known : Directory)
    (behind : EStateM.Result ε (Cache (Recorded σ)) α)
    (direct : EStateM.Result ε (Recorded Unit) α) : Prop where
  /-- The result is the same, be it a success or an error. -/
  outcome : outcomeOf behind = outcomeOf direct
  /-- The questions that are passed on are those of the direct run, without the names that are known
  beforehand and without repeats. -/
  calls : (endState behind).inner.calls =
    distinct ((endState direct).calls.filter fun name => !known.contains name)

theorem sameRun_of_corresponds {ε α : Type} {x : EStateM ε (Recorded Unit) α}
    {y : EStateM ε (Cache (Recorded σ)) α}
    (h : Corresponds (Cache.Tracks f known) (fun direct s => s.PassesOn known direct) x y)
    (hknown : ∀ name id, known.find? name = some id → f name = .ok id) (s : σ) (lookups : Nat) :
    SameRun known (y ⟨⟨s, []⟩, known, lookups⟩) (x ⟨(), []⟩) := by
  have hstart : Cache.Tracks f known ⟨(), []⟩ ⟨⟨s, []⟩, known, lookups⟩ :=
    ⟨rfl, by simp, hknown⟩
  have hagree := h _ _ hstart
  exact ⟨hagree.outcomeOf_eq.symm, hagree.endState fun _ _ => Cache.Tracks.calls⟩

/-- Compiling and rendering through a cache come to the same as without it, and pass on the first
question for each name that the cache does not know. -/
theorem compile_render_cached (inner : Resolver σ) (f : String → Except LookupError String)
    (hinner : inner.Answers f) (known : Directory)
    (hknown : ∀ name id, known.find? name = some id → f name = .ok id) (s : σ) (lookups : Nat) :
    (∀ (e : Expression) (variant : Variant),
      SameRun known (e.compile inner.recorded.cached variant ⟨⟨s, []⟩, known, lookups⟩)
        (e.compile (ofFunction f).recorded variant ⟨(), []⟩)) ∧
    ∀ t : Tree,
      SameRun known (t.render inner.recorded.cached ⟨⟨s, []⟩, known, lookups⟩)
        (t.render (ofFunction f).recorded ⟨(), []⟩) := by
  have hmatches := hinner.matches_cached known
  constructor
  · intro e variant
    exact sameRun_of_corresponds (e.corresponds_compile hmatches) hknown s lookups
  · intro t
    exact sameRun_of_corresponds (t.corresponds_render hmatches) hknown s lookups

/-- The known name and the repeats are not passed on, and both runs end at the source that is not
found. -/
theorem compile_render_cached_repeats :
    outcomeOf
        (Expression.compile
          (Directory.ofPairs [("HR", "1"), ("Badges", "2")]).resolver.recorded.cached .role
          (.logical .or [
            .comparison ⟨.equal, ⟨.account "Badges", "a"⟩, .single "x"⟩,
            .comparison ⟨.equal, ⟨.account "HR", "b"⟩, .single "x"⟩,
            .comparison ⟨.equal, ⟨.account "Badges", "c"⟩, .single "x"⟩,
            .comparison ⟨.equal, ⟨.account "Guests", "d"⟩, .single "x"⟩])
          ⟨⟨(), []⟩, Directory.ofPairs [("HR", "1")], 0⟩) =
        .error (.resolution "Guests" (.notFound "Guests")) ∧
      (endState
        (Expression.compile
          (Directory.ofPairs [("HR", "1"), ("Badges", "2")]).resolver.recorded.cached .role
          (.logical .or [
            .comparison ⟨.equal, ⟨.account "Badges", "a"⟩, .single "x"⟩,
            .comparison ⟨.equal, ⟨.account "HR", "b"⟩, .single "x"⟩,
            .comparison ⟨.equal, ⟨.account "Badges", "c"⟩, .single "x"⟩,
            .comparison ⟨.equal, ⟨.account "Guests", "d"⟩, .single "x"⟩])
          ⟨⟨(), []⟩, Directory.ofPairs [("HR", "1")], 0⟩)).inner.calls = ["Badges", "Guests"] := by
  have hknown : ∀ name id, (Directory.ofPairs [("HR", "1")]).find? name = some id →
      (Directory.ofPairs [("HR", "1"), ("Badges", "2")]).resolve name = .ok id := by
    intro name id h
    have hmem : (name, id) ∈ (Directory.ofPairs [("HR", "1")]).entries :=
      Directory.find?_eq_some_iff.1 h
    obtain ⟨rfl, rfl⟩ : name = "HR" ∧ id = "1" := by
      simpa [Directory.ofPairs, Directory.insert, Directory.empty, Directory.insertEntry] using hmem
    rfl
  have hrun := (compile_render_cached (Directory.ofPairs [("HR", "1"), ("Badges", "2")]).resolver _
    (answers_ofFunction _) (Directory.ofPairs [("HR", "1")]) hknown () 0).1
    (.logical .or [
      .comparison ⟨.equal, ⟨.account "Badges", "a"⟩, .single "x"⟩,
      .comparison ⟨.equal, ⟨.account "HR", "b"⟩, .single "x"⟩,
      .comparison ⟨.equal, ⟨.account "Badges", "c"⟩, .single "x"⟩,
      .comparison ⟨.equal, ⟨.account "Guests", "d"⟩, .single "x"⟩]) .role
  constructor
  · rw [hrun.outcome]
    rfl
  · rw [hrun.calls]
    decide +kernel

end Resolver

end Eligibility
