import Eligibility.Proofs.SourceNames

/-!
# Warm caches

Warming a cache looks up the names that it does not know, each once and in the order of their first
occurrence, up to the first failure; what was answered until then is kept. `Warms` says so without
regard to how warming is programmed, for a resolver that may answer as it likes.

The names that a rule needs are its source names. So once these are warmed, the rule compiles
without the resolver behind the cache, whatever has become of it (`Resolver.warm_then_compile`).
-/

namespace Eligibility

variable {σ α : Type}

/-! ## Answers -/

/-- The directory with some more entries. -/
def Directory.insertAll (d : Directory) (entries : List (String × String)) : Directory :=
  entries.foldl (fun d entry => d.insert entry.1 entry.2) d

theorem Directory.contains_insert {d : Directory} {name id other : String} :
    (d.insert name id).contains other = true ↔ other = name ∨ d.contains other = true := by
  unfold contains
  rw [find?_insert]
  split <;> simp [*]

theorem Directory.contains_insertAll {entries : List (String × String)} {d : Directory}
    {name : String} :
    (d.insertAll entries).contains name = true ↔
      name ∈ entries.map Prod.fst ∨ d.contains name = true := by
  induction entries generalizing d with
  | nil => simp [insertAll]
  | cons entry entries ih =>
    have hcons : d.insertAll (entry :: entries) =
        (d.insert entry.1 entry.2).insertAll entries := rfl
    rw [hcons, ih, contains_insert, List.map_cons, List.mem_cons, or_left_comm, or_assoc]

/-- A resolver answers questions one after the other, each with an id. -/
inductive AnsweredAll (inner : Resolver σ) : List (String × String) → σ → σ → Prop where
  /-- Nothing is asked. -/
  | nil {s : σ} : AnsweredAll inner [] s s
  /-- A first question, and those after it. -/
  | cons {name id : String} {answers : List (String × String)} {s t u : σ}
      (hcall : inner name s = .ok id t) (hrest : AnsweredAll inner answers t u) :
      AnsweredAll inner ((name, id) :: answers) s u

namespace Cache

/-- A cache after questions that it passed on and that were answered. -/
def learnAll (p : Cache (Recorded σ)) (answers : List (String × String)) (next : σ) :
    Cache (Recorded σ) :=
  ⟨⟨next, p.inner.calls ++ answers.map Prod.fst⟩, p.known.insertAll answers,
    p.lookups + answers.length⟩

/-- A cache after a question that it passed on and that failed. -/
def miss (p : Cache (Recorded σ)) (name : String) (next : σ) : Cache (Recorded σ) :=
  ⟨⟨next, p.inner.calls ++ [name]⟩, p.known, p.lookups + 1⟩

theorem learnAll_nil (p : Cache (Recorded σ)) : p.learnAll [] p.inner.inner = p := by
  simp [learnAll, Directory.insertAll]

theorem learnAll_learnAll (p : Cache (Recorded σ)) (a : String × String)
    (answers : List (String × String)) (t u : σ) :
    (p.learnAll [a] t).learnAll answers u = p.learnAll (a :: answers) u := by
  simp [learnAll, Directory.insertAll, Nat.add_assoc, Nat.add_comm 1]

end Cache

/-- What looking up some names comes to, from a cache that knows none of them. -/
inductive Warms (inner : Resolver σ) (p : Cache (Recorded σ)) (pending : List String) :
    EStateM.Result LookupError (Cache (Recorded σ)) Unit → Prop where
  /-- All names are asked for in order and answered, and the cache learns the answers. -/
  | answered {answers : List (String × String)} {t : σ} (hnames : answers.map Prod.fst = pending)
      (hanswers : AnsweredAll inner answers p.inner.inner t) :
      Warms inner p pending (.ok () (p.learnAll answers t))
  /-- The names up to one that fails are asked for in order. The cache learns the answers before
  the failure, and the names after it are not asked for. -/
  | failed {answers : List (String × String)} {name : String} {after : List String}
      {e : LookupError} {t u : σ} (hnames : answers.map Prod.fst ++ name :: after = pending)
      (hanswers : AnsweredAll inner answers p.inner.inner t) (hcall : inner name t = .error e u) :
      Warms inner p pending (.error e ((p.learnAll answers t).miss name u))

section

variable {inner : Resolver σ} {p : Cache (Recorded σ)} {name : String} {rest : List String}
  {result : EStateM.Result LookupError (Cache (Recorded σ)) Unit}

theorem warms_nil : Warms inner p [] result ↔ .ok () p = result := by
  constructor
  · intro h
    cases h with
    | answered hnames hanswers =>
      obtain rfl := List.map_eq_nil_iff.1 hnames
      cases hanswers
      rw [p.learnAll_nil]
    | failed hnames => simp at hnames
  · rintro rfl
    have hdone : Warms inner p [] (.ok () (p.learnAll [] p.inner.inner)) := .answered rfl .nil
    rwa [p.learnAll_nil] at hdone

/-- The first of several names is answered, and the others are looked up from there; or it fails. -/
theorem warms_cons :
    Warms inner p (name :: rest) result ↔
      (∃ id t, inner name p.inner.inner = .ok id t ∧
        Warms inner (p.learnAll [(name, id)] t) rest result) ∨
      ∃ e t, inner name p.inner.inner = .error e t ∧ .error e (p.miss name t) = result := by
  constructor
  · intro h
    cases h with
    | answered hnames hanswers =>
      cases hanswers with
      | nil => cases hnames
      | @cons first id answers _ t _ hcall hanswers =>
        obtain ⟨rfl, hrest⟩ : name = first ∧ answers.map Prod.fst = rest := by
          simpa [eq_comm] using hnames
        have hdone := Warms.answered (p := p.learnAll [(name, id)] t) hrest hanswers
        rw [p.learnAll_learnAll] at hdone
        exact .inl ⟨id, t, hcall, hdone⟩
    | @failed _ last after _ _ _ hnames hanswers hfails =>
      cases hanswers with
      | nil =>
        cases hnames
        rw [p.learnAll_nil]
        exact .inr ⟨_, _, hfails, rfl⟩
      | @cons first id answers _ t _ hcall hanswers =>
        obtain ⟨rfl, hrest⟩ : name = first ∧ answers.map Prod.fst ++ last :: after = rest := by
          simpa [eq_comm] using hnames
        have hdone := Warms.failed (p := p.learnAll [(name, id)] t) hrest hanswers hfails
        rw [p.learnAll_learnAll] at hdone
        exact .inl ⟨id, t, hcall, hdone⟩
  · rintro (⟨id, t, hcall, h⟩ | ⟨e, t, hcall, rfl⟩)
    · cases h with
      | answered hnames hanswers =>
        rw [p.learnAll_learnAll]
        exact .answered (by rw [List.map_cons, hnames]) (.cons hcall hanswers)
      | failed hnames hanswers hfails =>
        rw [p.learnAll_learnAll]
        exact .failed (by rw [List.map_cons, List.cons_append, hnames]) (.cons hcall hanswers)
          hfails
    · have hdone : Warms inner p (name :: rest)
          (.error e ((p.learnAll [] p.inner.inner).miss name t)) := .failed rfl .nil hcall
      rwa [p.learnAll_nil] at hdone

end

/-! ## Warming -/

namespace Resolver

variable {inner : Resolver σ} {p : Cache (Recorded σ)} {name id : String}

theorem cached_of_known {inner : Resolver σ} {p : Cache σ} (h : p.known.find? name = some id) :
    inner.cached name p = .ok id p := by
  simp [cached, h]

theorem cached_of_ok {t : σ} (hname : p.known.find? name = none)
    (hcall : inner name p.inner.inner = .ok id t) :
    inner.recorded.cached name p = .ok id (p.learnAll [(name, id)] t) := by
  simp [cached, recorded, hname, hcall, Cache.learnAll, Directory.insertAll]

theorem cached_of_error {e : LookupError} {t : σ} (hname : p.known.find? name = none)
    (hcall : inner name p.inner.inner = .error e t) :
    inner.recorded.cached name p = .error e (p.miss name t) := by
  simp [cached, recorded, hname, hcall, Cache.miss]

/-- Different names that the cache does not know are all passed on, up to the first failure. -/
theorem askAll_cached_iff {pending : List String} (hnodup : pending.Nodup)
    (hnew : ∀ name ∈ pending, p.known.find? name = none)
    {result : EStateM.Result LookupError (Cache (Recorded σ)) Unit} :
    inner.recorded.cached.askAll pending p = result ↔ Warms inner p pending result := by
  induction pending generalizing p with
  | nil => exact warms_nil.symm
  | cons name rest ih =>
    obtain ⟨hfresh, hrest⟩ := List.nodup_cons.1 hnodup
    have hname := hnew name List.mem_cons_self
    rw [warms_cons]
    cases hcall : inner name p.inner.inner with
    | ok id t =>
      -- the names behind this one are still unknown, because they differ from it
      have hstill : ∀ other ∈ rest, (p.learnAll [(name, id)] t).known.find? other = none := by
        intro other hother
        have hne : other ≠ name := fun heq => hfresh (heq ▸ hother)
        have hinsert : (p.learnAll [(name, id)] t).known = p.known.insert name id := rfl
        rw [hinsert, Directory.find?_insert, if_neg hne]
        exact hnew other (List.mem_cons_of_mem name hother)
      have hstep : inner.recorded.cached.askAll (name :: rest) p =
          inner.recorded.cached.askAll rest (p.learnAll [(name, id)] t) := by
        simp only [askAll, bind, EStateM.bind, cached_of_ok hname hcall]
      simp [hstep, ih hrest hstill]
    | error e t =>
      have hstep : inner.recorded.cached.askAll (name :: rest) p = .error e (p.miss name t) := by
        simp only [askAll, bind, EStateM.bind, cached_of_error hname hcall]
      simp [hstep]

theorem pending_eq (p : Cache σ) (names : List String) :
    p.pending names = (names.filter fun name => !p.known.contains name).eraseDups :=
  distinct_eq_eraseDups _

theorem mem_pending {p : Cache σ} {names : List String} {name : String} :
    name ∈ p.pending names ↔ name ∈ names ∧ p.known.contains name = false := by
  rw [Cache.pending, mem_distinct, List.mem_filter, Bool.not_eq_true']

theorem warm_iff {names : List String}
    {result : EStateM.Result LookupError (Cache (Recorded σ)) Unit} :
    inner.recorded.cached.warm names p = result ↔ Warms inner p (p.pending names) result := by
  have hnew : ∀ name ∈ p.pending names, p.known.find? name = none := by
    intro name hname
    simpa [Directory.contains] using (mem_pending.1 hname).2
  exact askAll_cached_iff (nodup_distinct _) hnew

theorem contains_of_warm {names : List String} {q : Cache (Recorded σ)}
    (h : inner.recorded.cached.warm names p = .ok () q) {name : String} (hname : name ∈ names) :
    q.known.contains name = true := by
  cases warm_iff.1 h with
  | answered hnames hanswers =>
    refine Directory.contains_insertAll.2 ?_
    rw [hnames, mem_pending]
    cases p.known.contains name <;> simp [hname]

end Resolver

/-! ## Compiling from a warm cache -/

/-- If all names that are demanded are resolved without a change, then nothing changes, and what
fails does so for its shape. -/
theorem Demand.settle_stays {resolver : Resolver σ} {s : σ} {d : Demand}
    (hname : ∀ name, d.name = some name → ∃ id, resolver name s = .ok id s) :
    d.settle resolver s = .ok () s ∨ ∃ shape, d.settle resolver s = .error (.shape shape) s := by
  have hask : resolver.askFor d.name s = .ok () s := by
    cases hd : d.name with
    | none => rfl
    | some name =>
      obtain ⟨id, hid⟩ := hname name hd
      exact bind_eq_ok.2 ⟨id, s, Resolver.ask_ok hid, rfl⟩
  unfold settle
  cases hrefused : d.refused with
  | some shape => exact .inr ⟨shape, rfl⟩
  | none =>
    cases hlate : d.refusedLate with
    | some shape =>
      refine .inr ⟨shape, bind_eq_error.2 (.inr ⟨(), s, rfl, ?_⟩)⟩
      exact bind_eq_error.2 (.inr ⟨(), s, hask, rfl⟩)
    | none => exact .inl (bind_eq_ok.2 ⟨(), s, rfl, bind_eq_ok.2 ⟨(), s, hask, rfl⟩⟩)

theorem settleAll_stays {resolver : Resolver σ} {s : σ} {ds : List Demand}
    (hnames : ∀ name ∈ ds.filterMap Demand.name, ∃ id, resolver name s = .ok id s) :
    forM ds (Demand.settle resolver) s = .ok () s ∨
      ∃ shape, forM ds (Demand.settle resolver) s = .error (.shape shape) s := by
  induction ds with
  | nil => exact .inl rfl
  | cons d ds ih =>
    rw [Demand.names_cons] at hnames
    have hrest := ih fun name hname => hnames name (List.mem_append_right _ hname)
    have hfirst : d.settle resolver s = .ok () s ∨
        ∃ shape, d.settle resolver s = .error (.shape shape) s :=
      Demand.settle_stays fun name hname => hnames name (List.mem_append_left _ (by simp [hname]))
    rcases hfirst with hok | ⟨shape, herror⟩
    · rcases hrest with hrest | ⟨shape, hrest⟩
      · exact .inl (bind_eq_ok.2 ⟨(), s, hok, hrest⟩)
      · exact .inr ⟨shape, bind_eq_error.2 (.inr ⟨(), s, hok, hrest⟩)⟩
    · exact .inr ⟨shape, bind_eq_error.2 (.inl herror)⟩

theorem Settles.stays {resolver : Resolver σ} {x : Criteria σ α} {ds : List Demand}
    (h : Settles resolver x ds) {s : σ}
    (hnames : ∀ name ∈ ds.filterMap Demand.name, ∃ id, resolver name s = .ok id s) :
    (∃ a, x s = .ok a s) ∨ ∃ shape, x s = .error (.shape shape) s := by
  have hrun := settleAll_stays hnames
  rw [← h, map_eq_ok] at hrun
  simp only [map_eq_error] at hrun
  rcases hrun with ⟨a, ha, -⟩ | hshape
  · exact .inl ⟨a, ha⟩
  · exact .inr hshape

/-- A rule whose sources are resolved without a change compiles without a change, or fails for its
shape. -/
theorem Expression.compile_stays {resolver : Resolver σ} {e : Expression} {s : σ}
    (hnames : ∀ name ∈ e.sourceNames, ∃ id, resolver name s = .ok id s) (variant : Variant) :
    (∃ tree, e.compile resolver variant s = .ok tree s) ∨
      ∃ shape, e.compile resolver variant s = .error (.shape shape) s := by
  by_cases hdepth : e.depth ≤ maxDepth
  · have hsettles : Settles resolver (e.compile resolver variant)
        (e.comparisons.map (Comparison.demand variant)) := settles_compile hdepth
    refine hsettles.stays fun name hname => hnames name ?_
    rw [Comparison.names_demands] at hname
    exact mem_sourceNames.2 (List.mem_filterMap.1 hname)
  · rw [compile_of_tooDeep (Nat.lt_of_not_le hdepth)]
    exact .inr ⟨_, rfl⟩

namespace Resolver

/-- Warming asks for the names that are not cached, each once and in the order of their first
occurrence, up to the first failure, and it caches what was answered. After it has succeeded, all
names are cached; and if they were the source names of a rule, then compiling that rule asks
nothing of the resolver behind the cache, be it still the same or another one by now, and can only
fail because of the shape of the rule. -/
theorem warm_then_compile (inner : Resolver σ) (p : Cache (Recorded σ)) :
    (∀ names result, inner.recorded.cached.warm names p = result ↔
      Warms inner p (names.filter fun name => !p.known.contains name).eraseDups result) ∧
    (∀ names q, inner.recorded.cached.warm names p = .ok () q →
      ∀ name ∈ names, q.known.contains name = true) ∧
    ∀ (e : Expression) (q : Cache (Recorded σ)),
      inner.recorded.cached.warm e.sourceNames p = .ok () q →
        ∀ (later : Resolver σ) (variant : Variant),
          (∃ tree, e.compile later.recorded.cached variant q = .ok tree q) ∨
            ∃ shape, e.compile later.recorded.cached variant q = .error (.shape shape) q := by
  refine ⟨fun names result => ?_, fun names q h name hname => contains_of_warm h hname, ?_⟩
  · rw [warm_iff, pending_eq]
  · intro e q h later variant
    refine e.compile_stays (fun name hname => ?_) variant
    obtain ⟨id, hid⟩ := Option.isSome_iff_exists.1 (contains_of_warm h hname)
    exact ⟨id, cached_of_known hid⟩

/-- The known name and the repeats are not asked for, nor is the name behind the one that fails; and
what was warmed outlives the resolver behind the cache. -/
theorem warm_then_compile_outage :
    (withOutages (Directory.ofPairs [("Badges", "2"), ("Staff", "3")]).resolve).recorded.cached.warm
        ["Badges", "HR", "Badges", "Guests", "Staff"]
        ⟨⟨[⟨"Guests", "timeout", some 1⟩], []⟩, Directory.ofPairs [("HR", "1")], 0⟩ =
      .error (.unavailable "Guests" "timeout")
        ⟨⟨[⟨"Guests", "timeout", some 0⟩], ["Badges", "Guests"]⟩,
          (Directory.ofPairs [("HR", "1")]).insert "Badges" "2", 2⟩ ∧
    ∃ q, (Directory.ofPairs [("Badges", "2")]).resolver.recorded.cached.warm ["Badges"]
          ⟨⟨(), []⟩, Directory.ofPairs [("HR", "1")], 0⟩ = .ok () q ∧
      endState (Expression.compile
        (ofFunction fun name => .error (.unavailable name "offline")).recorded.cached .role
        (.comparison ⟨.equal, ⟨.account "Badges", "a"⟩, .single "x"⟩) q) = q := by
  constructor
  · have hanswers : AnsweredAll
        (withOutages (Directory.ofPairs [("Badges", "2"), ("Staff", "3")]).resolve)
        [("Badges", "2")] [⟨"Guests", "timeout", some 1⟩] [⟨"Guests", "timeout", some 1⟩] :=
      .cons rfl .nil
    have hcall : withOutages (Directory.ofPairs [("Badges", "2"), ("Staff", "3")]).resolve "Guests"
        [⟨"Guests", "timeout", some 1⟩] =
          .error (.unavailable "Guests" "timeout") [⟨"Guests", "timeout", some 0⟩] := rfl
    have hnames : [("Badges", "2")].map Prod.fst ++ "Guests" :: ["Staff"] =
        (["Badges", "HR", "Badges", "Guests", "Staff"].filter fun name =>
          !(Directory.ofPairs [("HR", "1")]).contains name).eraseDups := by decide +kernel
    exact ((warm_then_compile _ ⟨⟨_, []⟩, Directory.ofPairs [("HR", "1")], 0⟩).1 _ _).2
      (.failed hnames hanswers hcall)
  · have hwarm : (Directory.ofPairs [("Badges", "2")]).resolver.recorded.cached.warm
        (Expression.comparison ⟨.equal, ⟨.account "Badges", "a"⟩, .single "x"⟩).sourceNames
        ⟨⟨(), []⟩, Directory.ofPairs [("HR", "1")], 0⟩ =
          .ok () ⟨⟨(), ["Badges"]⟩, (Directory.ofPairs [("HR", "1")]).insert "Badges" "2", 1⟩ := rfl
    refine ⟨_, hwarm, ?_⟩
    have hcompile := (warm_then_compile _ _).2.2 _ _ hwarm
      (ofFunction fun name => .error (.unavailable name "offline")) .role
    rcases hcompile with ⟨tree, h⟩ | ⟨shape, h⟩
    · rw [h]
      rfl
    · rw [h]
      rfl

end Resolver

end Eligibility
