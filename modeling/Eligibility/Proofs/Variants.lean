import Eligibility.Proofs.Correspondence
import Eligibility.Proofs.Failures

/-!
# Roles and dimensions

A rule without lists compiles for a dimension just as for a role. A rule with a list does not: the
two runs go side by side up to the first list, and there the one for the dimension stops, unless
both have failed before (`Expression.compile_dimension`).
-/

namespace Eligibility

variable {σ ε α β : Type} {resolver : Resolver σ}

/-! ## Runs over demands -/

theorem endState_map (f : α → β) (x : EStateM ε σ α) (s : σ) :
    endState ((f <$> x) s) = endState (x s) := by
  simp only [Functor.map, EStateM.map]
  cases x s <;> rfl

theorem Settles.endState_eq {x : Criteria σ α} {ds : List Demand} (h : Settles resolver x ds)
    (s : σ) : endState (x s) = endState (forM ds (Demand.settle resolver) s) := by
  rw [← endState_map (fun _ => ()) x, h]

/-- Some demands either are all met, or one of them fails first. -/
theorem metAll_or_failsFirst (resolver : Resolver σ) (ds : List Demand) (s : σ) :
    (∃ t, MetAll resolver ds s t) ∨ ∃ error calls t, FailsFirst resolver ds s error calls t := by
  cases hrun : forM ds (Demand.settle resolver.recorded) ⟨s, []⟩ with
  | ok _ r =>
    obtain ⟨t, hmet, -⟩ := settleAll_eq_ok.1 hrun
    exact .inl ⟨t, hmet⟩
  | error e r =>
    obtain ⟨calls, t, hfails, -⟩ := settleAll_eq_error.1 hrun
    exact .inr ⟨e, calls, t, hfails⟩

/-- A run does not forget what it has asked. -/
theorem calls_prefix_settleAll (ds : List Demand) (s : σ) (calls : List String) :
    calls <+: (endState (forM ds (Demand.settle resolver.recorded) ⟨s, calls⟩)).calls := by
  cases hrun : forM ds (Demand.settle resolver.recorded) ⟨s, calls⟩ with
  | ok _ r =>
    obtain ⟨t, -, rfl⟩ := settleAll_eq_ok.1 hrun
    exact List.prefix_append _ _
  | error e r =>
    obtain ⟨asked, t, -, rfl⟩ := settleAll_eq_error.1 hrun
    exact List.prefix_append _ _

/-- More demands behind those among which one fails change nothing. -/
theorem FailsFirst.append {ds : List Demand} {s t : σ} {error : CriteriaError} {calls : List String}
    (h : FailsFirst resolver ds s error calls t) (es : List Demand) :
    FailsFirst resolver (ds ++ es) s error calls t := by
  obtain ⟨before, d, after, u, asked, rfl, hbefore, hfails, rfl⟩ := h
  exact ⟨before, d, after ++ es, u, asked, by simp, hbefore, hfails, rfl⟩

/-- A run over demands that begins with some that are met asks for their names first. -/
theorem MetAll.calls_prefix {ds : List Demand} {s t : σ} (h : MetAll resolver ds s t)
    (es : List Demand) :
    ds.filterMap Demand.name <+:
      (endState (forM (ds ++ es) (Demand.settle resolver.recorded) ⟨s, []⟩)).calls := by
  have hfirst : forM ds (Demand.settle resolver.recorded) ⟨s, []⟩ =
      .ok () ⟨t, ds.filterMap Demand.name⟩ := settleAll_eq_ok.2 ⟨t, h, rfl⟩
  have hrest : forM (ds ++ es) (Demand.settle resolver.recorded) ⟨s, []⟩ =
      forM es (Demand.settle resolver.recorded) ⟨t, ds.filterMap Demand.name⟩ := by
    rw [List.forM_append]
    simp only [bind, EStateM.bind, hfirst]
  rw [hrest]
  exact calls_prefix_settleAll es t _

/-! ## Comparisons -/

namespace Comparison

variable {c : Comparison}

theorem not_isRefused_of_single {variant : Variant} (h : c.value.isList = false) :
    ¬ c.IsRefused variant := by
  rintro ⟨-, hlist⟩
  rw [h] at hlist
  cases hlist

theorem compile_eq_of_single (resolver : Resolver σ) (h : c.value.isList = false)
    (variant variant' : Variant) : c.compile resolver variant = c.compile resolver variant' := by
  cases hsource : c.source? with
  | none =>
    rw [compile_of_noSource (not_isRefused_of_single h) hsource,
      compile_of_noSource (not_isRefused_of_single h) hsource]
  | some source =>
    rw [compile_of_source (not_isRefused_of_single h) hsource,
      compile_of_source (not_isRefused_of_single h) hsource]

theorem demand_eq_of_single (h : c.value.isList = false) (variant variant' : Variant) :
    c.demand variant = c.demand variant' := by
  simp [demand, h]

theorem isList_of_compile_dimension {s t : σ} {l : Leaf}
    (h : c.compile resolver .dimension s = .ok l t) : l.value.isList = false := by
  by_cases hrefused : c.IsRefused .dimension
  · rw [compile_of_isRefused hrefused] at h
    cases h
  · have hsingle : c.value.isList = false := by simpa [IsRefused] using hrefused
    cases hsource : c.source? with
    | none =>
      rw [compile_of_noSource hrefused hsource] at h
      cases h
      exact hsingle
    | some source =>
      rw [compile_of_source hrefused hsource] at h
      obtain ⟨id, u, -, h⟩ := bind_eq_ok.1 h
      cases h
      exact hsingle

end Comparison

namespace Outline

variable {o : Outline}

theorem compile_congr {variant variant' : Variant}
    (h : ∀ c ∈ o.comparisons, c.compile resolver variant = c.compile resolver variant') :
    o.compile resolver variant = o.compile resolver variant' := by
  have hgroup : ∀ g ∈ o.groups,
      compileGroup resolver variant g = compileGroup resolver variant' g := by
    intro g hg
    have hleaves := mapM_congr fun c hc => h c (List.mem_flatMap.2 ⟨g, hg, hc⟩)
    rw [compileGroup, compileGroup, hleaves]
  rw [compile, compile, mapM_congr hgroup]

/-- Every leaf of a compiled outline is what a comparison compiles to. -/
theorem exists_of_mem_leaves {variant : Variant} {s t : σ} {tree : Tree}
    (h : o.compile resolver variant s = .ok tree t) {l : Leaf} (hl : l ∈ tree.leaves) :
    ∃ c ∈ o.comparisons, ∃ u v, c.compile resolver variant u = .ok l v := by
  obtain ⟨groups, u, hgroups, h⟩ := bind_eq_ok.1 h
  cases h
  obtain ⟨group, hgroup, hl⟩ := List.mem_flatMap.1 hl
  obtain ⟨g, hg, v, w, hrun⟩ := mem_of_mapM hgroups hgroup
  obtain ⟨leaves, x, hleaves, hrun⟩ := bind_eq_ok.1 hrun
  cases hrun
  obtain ⟨c, hc, hcompile⟩ := mem_of_mapM hleaves hl
  exact ⟨c, List.mem_flatMap.2 ⟨g, hg, hc⟩, hcompile⟩

end Outline

/-! ## Rules -/

namespace Expression

variable {e : Expression}

theorem compile_eq_of_single (resolver : Resolver σ)
    (h : ∀ c ∈ e.comparisons, c.value.isList = false) :
    e.compile resolver .dimension = e.compile resolver .role := by
  by_cases hdepth : e.depth ≤ maxDepth
  · rw [compile_eq hdepth, compile_eq hdepth]
    refine Outline.compile_congr fun c hc => ?_
    rw [comparisons_outline] at hc
    exact Comparison.compile_eq_of_single resolver (h c hc) .dimension .role
  · have hdeep : maxDepth < e.depth := Nat.lt_of_not_le hdepth
    rw [compile_of_tooDeep hdeep, compile_of_tooDeep hdeep]

theorem isList_of_compile_dimension {s t : σ} {tree : Tree}
    (h : e.compile resolver .dimension s = .ok tree t) {l : Leaf} (hl : l ∈ tree.leaves) :
    l.value.isList = false := by
  by_cases hdepth : e.depth ≤ maxDepth
  · rw [compile_eq hdepth] at h
    obtain ⟨c, -, u, v, hcompile⟩ := Outline.exists_of_mem_leaves h hl
    exact Comparison.isList_of_compile_dimension hcompile
  · rw [compile_of_tooDeep (Nat.lt_of_not_le hdepth)] at h
    cases h

theorem exists_firstList (h : ∃ c ∈ e.comparisons, c.value.isList = true) :
    ∃ before c after, e.comparisons = before ++ c :: after ∧
      (∀ b ∈ before, b.value.isList = false) ∧ c.value.isList = true := by
  obtain ⟨c, hfind⟩ := Option.isSome_iff_exists.1 (List.find?_isSome.2 h)
  obtain ⟨hc, before, after, heq, hbefore⟩ := List.find?_eq_some_iff_append.1 hfind
  exact ⟨before, c, after, heq, fun b hb => by simpa using hbefore b hb, hc⟩

section FirstList

variable {before after : List Comparison} {c : Comparison}
  (hdepth : e.depth ≤ maxDepth) (heq : e.comparisons = before ++ c :: after)
  (hbefore : ∀ b ∈ before, b.value.isList = false)

include hdepth heq hbefore

/-- Before the first list both variants make the demands of a role. -/
theorem settles_firstList (resolver : Resolver σ) (variant : Variant) :
    Settles resolver (e.compile resolver variant) (before.map (Comparison.demand .role) ++
      (c.demand variant :: after.map (Comparison.demand variant))) := by
  have hsettles : Settles resolver (e.compile resolver variant)
      (e.comparisons.map (Comparison.demand variant)) := settles_compile hdepth
  have hsame : before.map (Comparison.demand variant) = before.map (Comparison.demand .role) :=
    List.map_congr_left fun b hb => Comparison.demand_eq_of_single (hbefore b hb) variant .role
  rwa [heq, List.map_append, List.map_cons, hsame] at hsettles

/-- A comparison before the first list fails for both variants alike. -/
theorem compile_of_failsFirst (variant : Variant) {s t : σ} {error : CriteriaError}
    {calls : List String}
    (h : FailsFirst resolver (before.map (Comparison.demand .role)) s error calls t) :
    e.compile resolver.recorded variant ⟨s, []⟩ = .error error ⟨t, calls⟩ :=
  (settles_firstList hdepth heq hbefore resolver.recorded variant).eq_error_iff.2 (h.append _)

/-- If no comparison before the first list fails, then the list is refused. -/
theorem compile_of_metAll (hc : c.value.isList = true) {s t : σ}
    (h : MetAll resolver (before.map (Comparison.demand .role)) s t) :
    e.compile resolver.recorded .dimension ⟨s, []⟩ =
      .error (.shape (.listInDimension c)) ⟨t, before.filterMap Comparison.source?⟩ := by
  have hsettles := settles_firstList hdepth heq hbefore resolver.recorded .dimension
  have hrefused : (c.demand .dimension).refused = some (.listInDimension c) := if_pos ⟨rfl, hc⟩
  refine hsettles.eq_error_iff.2 ⟨_, _, _, t, [], rfl, h, .refused hrefused, ?_⟩
  rw [Comparison.names_demands, List.append_nil]

/-- For a dimension no other questions are asked than for a role. -/
theorem calls_prefix_of_firstList (hc : c.value.isList = true) (s : σ) :
    (endState (e.compile resolver.recorded .dimension ⟨s, []⟩)).calls <+:
      (endState (e.compile resolver.recorded .role ⟨s, []⟩)).calls := by
  rcases metAll_or_failsFirst resolver (before.map (Comparison.demand .role)) s with
    ⟨t, hmet⟩ | ⟨error, calls, t, hfails⟩
  · have hrole := settles_firstList hdepth heq hbefore resolver.recorded .role
    have hcalls := hmet.calls_prefix (c.demand .role :: after.map (Comparison.demand .role))
    rw [Comparison.names_demands, ← hrole.endState_eq] at hcalls
    rw [compile_of_metAll hdepth heq hbefore hc hmet]
    exact hcalls
  · have hdimension := compile_of_failsFirst hdepth heq hbefore .dimension hfails
    have hrole := compile_of_failsFirst hdepth heq hbefore .role hfails
    exact ⟨[], by rw [hdimension, hrole, List.append_nil]⟩

end FirstList

/-- For a dimension a rule without lists comes to what it comes to for a role, with the same
questions. A rule of at most two levels with a list fails at its first list, after the questions
that the comparisons before it ask, unless one of these comparisons fails for a role already; then
both fail alike. A tree for a dimension has single values only. -/
theorem compile_dimension (resolver : Resolver σ) (e : Expression) (s : σ) :
    ((∀ c ∈ e.comparisons, c.value.isList = false) →
      e.compile resolver.recorded .dimension ⟨s, []⟩ =
        e.compile resolver.recorded .role ⟨s, []⟩) ∧
    (e.depth ≤ 2 → (∃ c ∈ e.comparisons, c.value.isList = true) →
      ∃ before c after, e.comparisons = before ++ c :: after ∧
        (∀ b ∈ before, b.value.isList = false) ∧ c.value.isList = true ∧
        (∀ error calls t,
          FailsFirst resolver (before.map (Comparison.demand .role)) s error calls t →
            e.compile resolver.recorded .role ⟨s, []⟩ = .error error ⟨t, calls⟩ ∧
            e.compile resolver.recorded .dimension ⟨s, []⟩ = .error error ⟨t, calls⟩) ∧
        ((¬ ∃ error calls t,
          FailsFirst resolver (before.map (Comparison.demand .role)) s error calls t) →
            ∃ t, e.compile resolver.recorded .dimension ⟨s, []⟩ =
              .error (.shape (.listInDimension c)) ⟨t, before.filterMap Comparison.source?⟩) ∧
        (endState (e.compile resolver.recorded .dimension ⟨s, []⟩)).calls <+:
          (endState (e.compile resolver.recorded .role ⟨s, []⟩)).calls) ∧
    ∀ tree r, e.compile resolver.recorded .dimension ⟨s, []⟩ = .ok tree r →
      ∀ l ∈ tree.leaves, l.value.isList = false := by
  refine ⟨fun h => by rw [compile_eq_of_single _ h], fun hdepth hlist => ?_,
    fun tree r h l hl => isList_of_compile_dimension h hl⟩
  obtain ⟨before, c, after, heq, hbefore, hc⟩ := exists_firstList hlist
  refine ⟨before, c, after, heq, hbefore, hc, fun error calls t hfails => ?_, fun hnot => ?_,
    calls_prefix_of_firstList hdepth heq hbefore hc s⟩
  · exact ⟨compile_of_failsFirst hdepth heq hbefore .role hfails,
      compile_of_failsFirst hdepth heq hbefore .dimension hfails⟩
  · obtain ⟨t, hmet⟩ := (metAll_or_failsFirst resolver _ s).resolve_right hnot
    exact ⟨t, compile_of_metAll hdepth heq hbefore hc hmet⟩

/-- The first list is the second comparison: the source after it is not asked for, and that before
it is. -/
theorem compile_dimension_list :
    compile (Directory.ofPairs [("HR", "1"), ("Badges", "2")]).resolver.recorded .dimension
        (.logical .or [
          .logical .and [
            .comparison ⟨.equal, ⟨.account "HR", "a"⟩, .single "x"⟩,
            .comparison ⟨.oneOf, ⟨.identity, "b"⟩, .list ["y", "z"]⟩],
          .comparison ⟨.equal, ⟨.entitlement "Badges", "c"⟩, .single "x"⟩])
        ⟨(), []⟩ =
      .error (.shape (.listInDimension ⟨.oneOf, ⟨.identity, "b"⟩, .list ["y", "z"]⟩))
        ⟨(), ["HR"]⟩ := by
  obtain ⟨before, c, after, heq, hbefore, hc, hfails, hstops, -⟩ := (compile_dimension
    (Directory.ofPairs [("HR", "1"), ("Badges", "2")]).resolver
    (.logical .or [
      .logical .and [
        .comparison ⟨.equal, ⟨.account "HR", "a"⟩, .single "x"⟩,
        .comparison ⟨.oneOf, ⟨.identity, "b"⟩, .list ["y", "z"]⟩],
      .comparison ⟨.equal, ⟨.entitlement "Badges", "c"⟩, .single "x"⟩]) ()).2.1 (by decide)
    ⟨⟨.oneOf, ⟨.identity, "b"⟩, .list ["y", "z"]⟩, by decide, rfl⟩
  match before, heq, hbefore with
  | [], heq, _ =>
    cases heq
    cases hc
  | [b], heq, _ =>
    cases heq
    have hnot : ¬ ∃ error calls t, FailsFirst _ [Comparison.demand .role _] () error calls t :=
      fun ⟨error, calls, t, h⟩ => nomatch (hfails error calls t h).1
    obtain ⟨t, hstop⟩ := hstops hnot
    exact hstop
  | b :: b' :: before, heq, hbefore =>
    obtain ⟨rfl, rfl, -⟩ : _ = b ∧ _ = b' ∧ _ := by simpa [comparisons, comparisonsAll] using heq
    cases hbefore ⟨.oneOf, ⟨.identity, "b"⟩, .list ["y", "z"]⟩ (by simp)

end Expression

end Eligibility
