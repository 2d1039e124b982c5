import Eligibility.Proofs.Failures
import Eligibility.Proofs.RoundTrip
import Eligibility.Proofs.Transparency

/-!
# The sources that a rule mentions

The names of the sources are told in two ways: a collector that goes through a rule notes every
source at its first mention, and compiling asks a resolver for the source of each comparison that it
comes to. Both go through the rule in document order, and neither leaves a source out
(`Expression.sourceNames_asked`).
-/

namespace Eligibility

variable {σ : Type}

/-! ## Collecting -/

/-- The source that is mentioned at a stop. -/
def Visit.source? : Visit → Option String
  | subject a => a.scope.source?
  | enter _ _ | literal _ | leave => none

/-- Notes the source that is mentioned at a stop, unless it is noted already. -/
def Visit.collect (seen : List String) (v : Visit) : List String :=
  match v.source? with
  | none => seen
  | some name => if name ∈ seen then seen else seen ++ [name]

namespace Expression

mutual

/-- The mentions on the way through a rule are those in its comparisons. -/
theorem source?_visits : ∀ e : Expression,
    e.visits.filterMap Visit.source? = e.comparisons.filterMap Comparison.source?
  | .comparison c => by
    have hsource : (Visit.subject c.subject).source? = c.source? := rfl
    have hliteral : (Visit.literal c.value).source? = none := rfl
    simp only [visits, comparisons, List.filterMap_cons, hsource, hliteral, List.filterMap_nil]
  | .logical _ children => by
    have henter (op : Connective) (n : Nat) : (Visit.enter op n).source? = none := rfl
    have hleave : Visit.leave.source? = none := rfl
    simp [visits, comparisons, henter, hleave, source?_visitsAll children]

theorem source?_visitsAll : ∀ es : List Expression,
    (visitsAll es).filterMap Visit.source? =
      (comparisonsAll es).filterMap Comparison.source?
  | [] => rfl
  | e :: es => by
    simp [visitsAll, comparisonsAll, source?_visits e, source?_visitsAll es]

end

/-- A collector that goes through a rule comes to its source names. -/
theorem foldl_collect (e : Expression) : e.visits.foldl Visit.collect [] = e.sourceNames := by
  rw [sourceNames, distinct, ← source?_visits, List.foldl_filterMap]
  congr 1
  funext seen v
  unfold Visit.collect
  cases v.source? <;> rfl

variable {e : Expression}

theorem mem_sourceNames {name : String} :
    name ∈ e.sourceNames ↔ ∃ c ∈ e.comparisons, c.source? = some name := by
  rw [sourceNames, mem_distinct, List.mem_filterMap]

/-- All comparisons are resolved in a directory that has the source names. -/
theorem forall_resolved_iff {d : Directory} :
    (∀ c ∈ e.comparisons, c.Resolved d.resolve) ↔
      ∀ name ∈ e.sourceNames, d.contains name = true := by
  constructor
  · intro h name hname
    obtain ⟨c, hc, hsource⟩ := mem_sourceNames.1 hname
    obtain ⟨id, hid⟩ := h c hc name hsource
    rw [Directory.contains, Directory.resolve_eq_ok.1 hid]
    rfl
  · intro h c hc source hsource
    obtain ⟨id, hid⟩ := Option.isSome_iff_exists.1 (h source (mem_sourceNames.2 ⟨c, hc, hsource⟩))
    exact ⟨id, Directory.resolve_eq_ok.2 hid⟩

/-! ## Compiling -/

/-- A rule that compiles asks for the source of each of its comparisons. -/
theorem calls_of_compile {resolver : Resolver σ} {variant : Variant} {s t : σ} {tree : Tree}
    {calls : List String} (h : e.compile resolver.recorded variant ⟨s, []⟩ = .ok tree ⟨t, calls⟩) :
    calls = e.comparisons.filterMap Comparison.source? := by
  by_cases hdepth : e.depth ≤ maxDepth
  · have hsettles : Settles resolver.recorded (e.compile resolver.recorded variant)
        (e.comparisons.map (Comparison.demand variant)) := settles_compile hdepth
    rw [← Comparison.names_demands variant]
    exact (hsettles.eq_ok_iff.1 ⟨tree, h⟩).2
  · rw [compile_of_tooDeep (Nat.lt_of_not_le hdepth)] at h
    cases h

/-- The source names of a rule are the names of the sources in its comparisons, in document order
and without repeats. So they are what a collector notes on the way through the rule, and what is
asked for when the rule is compiled, apart from repeated questions. -/
theorem sourceNames_asked (e : Expression) :
    e.sourceNames.Nodup ∧
      e.sourceNames = (e.comparisons.filterMap Comparison.source?).eraseDups ∧
      e.visits.foldl Visit.collect [] = e.sourceNames ∧
      ∀ (σ : Type) (resolver : Resolver σ) (variant : Variant) (s t : σ) (tree : Tree)
        (calls : List String),
        e.compile resolver.recorded variant ⟨s, []⟩ = .ok tree ⟨t, calls⟩ →
          calls.eraseDups = e.sourceNames := by
  have hnames : e.sourceNames = (e.comparisons.filterMap Comparison.source?).eraseDups :=
    distinct_eq_eraseDups _
  refine ⟨nodup_distinct _, hnames, e.foldl_collect, ?_⟩
  intro σ resolver variant s t tree calls hcompile
  rw [hnames, calls_of_compile hcompile]

/-- A source is asked for again by a comparison beside the group that mentions it first. -/
theorem sourceNames_asked_repeats :
    ["HR", "Badges", "HR"].eraseDups =
      sourceNames (.logical .or [
        .logical .and [
          .comparison ⟨.equal, ⟨.account "HR", "a"⟩, .single "x"⟩,
          .comparison ⟨.oneOf, ⟨.identity, "b"⟩, .list ["y", "z"]⟩,
          .comparison ⟨.equal, ⟨.entitlement "Badges", "c"⟩, .single "x"⟩],
        .comparison ⟨.lacks, ⟨.account "HR", "d"⟩, .single "x"⟩]) := by
  obtain ⟨-, -, -, hasked⟩ := sourceNames_asked (.logical .or [
    .logical .and [
      .comparison ⟨.equal, ⟨.account "HR", "a"⟩, .single "x"⟩,
      .comparison ⟨.oneOf, ⟨.identity, "b"⟩, .list ["y", "z"]⟩,
      .comparison ⟨.equal, ⟨.entitlement "Badges", "c"⟩, .single "x"⟩],
    .comparison ⟨.lacks, ⟨.account "HR", "d"⟩, .single "x"⟩])
  exact hasked Unit (Directory.ofPairs [("HR", "1"), ("Badges", "2")]).resolver .role () () _ _ rfl

end Expression

end Eligibility
