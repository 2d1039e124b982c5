import Eligibility.Proofs.Demands
import Eligibility.Proofs.Rendering
import Mathlib.Data.List.Basic

/-!
# When compiling and rendering fail

Compiling handles the comparisons of a rule in document order, and rendering the leaves of a tree,
with a stop at every group that has none. Both stop at the first of these that fails, and neither
asks for anything else than the sources of those that it has handled. What is demanded of each does
not depend on the shape of the rule, nor on the layout of the text, although both are programmed
shape by shape.
-/

namespace Eligibility

variable {σ : Type}

/-! ## Compiling -/

/-- What compiling demands of a comparison: no list of values in a dimension, and then the id of its
source. -/
def Comparison.demand (variant : Variant) (c : Comparison) : Demand where
  refused :=
    if variant = .dimension ∧ c.value.isList = true then some (.listInDimension c) else none
  name := c.source?
  refusedLate := none

theorem Comparison.names_demands (variant : Variant) (cs : List Comparison) :
    (cs.map (demand variant)).filterMap Demand.name = cs.filterMap source? := by
  rw [List.filterMap_map]
  rfl

section

variable {resolver : Resolver σ} {variant : Variant}

theorem Comparison.settles_compile (c : Comparison) :
    Settles resolver (c.compile resolver variant) [c.demand variant] := by
  refine .single ?_
  by_cases hrefused : c.IsRefused variant
  · have hdemand : (c.demand variant).refused = some (.listInDimension c) := if_pos hrefused
    rw [compile_of_isRefused hrefused, Demand.settle, hdemand]
    rfl
  · have hdemand : (c.demand variant).refused = none := if_neg hrefused
    rw [Demand.settle, hdemand]
    cases hsource : c.source? with
    | none =>
      rw [compile_of_noSource hrefused hsource]
      simp [demand, hsource, refuse, Resolver.askFor]
    | some source =>
      rw [compile_of_source hrefused hsource]
      simp [demand, hsource, refuse, Resolver.askFor]

theorem Outline.settles_compile (o : Outline) :
    Settles resolver (o.compile resolver variant)
      (o.comparisons.map (Comparison.demand variant)) := by
  have hgroup : ∀ g ∈ o.groups, Settles resolver (compileGroup resolver variant g)
      (g.2.map (Comparison.demand variant)) :=
    fun g _ => (Settles.mapM_map g.2 Comparison.settles_compile).bind_pure fun leaves =>
      (⟨g.1, leaves⟩ : Group)
  rw [comparisons, List.map_flatMap]
  exact (Settles.mapM o.groups hgroup).bind_pure fun groups => (⟨o.operation, groups⟩ : Tree)

theorem Expression.settles_compile {e : Expression} (h : e.depth ≤ maxDepth) :
    Settles resolver (e.compile resolver variant)
      (e.comparisons.map (Comparison.demand variant)) := by
  rw [compile_eq h, ← comparisons_outline]
  exact e.outline.settles_compile

end

/-- Compiling fails for two reasons only. -/
theorem FailsFirst.of_comparisons {resolver : Resolver σ} {variant : Variant} {cs : List Comparison}
    {s t : σ} {error : CriteriaError} {calls : List String}
    (h : FailsFirst resolver (cs.map (Comparison.demand variant)) s error calls t) :
    (∃ c ∈ cs, error = .shape (.listInDimension c)) ∨ ∃ name e, error = .resolution name e := by
  obtain ⟨before, d, after, u, asked, heq, -, hfails, -⟩ := h
  obtain ⟨c, hc, rfl⟩ : ∃ c ∈ cs, c.demand variant = d :=
    List.mem_map.1 (by rw [heq]; exact List.mem_append_right _ List.mem_cons_self)
  cases hfails with
  | refused hrefused =>
    simp only [Comparison.demand, Option.ite_none_right_eq_some, Option.some.injEq] at hrefused
    exact .inl ⟨c, hc, by rw [hrefused.2]⟩
  | unresolved => exact .inr ⟨_, _, rfl⟩
  | refusedLate _ _ hlate => cases hlate

/-- Compiling refuses a rule that is too deep without a question. Any other rule it goes through
comparison by comparison, up to the first that fails, and it asks for the sources of those that it
comes to, each once. -/
theorem Expression.compile_first_failure (resolver : Resolver σ) (variant : Variant)
    (e : Expression) (s : σ) :
    (2 < e.depth →
      e.compile resolver.recorded variant ⟨s, []⟩ = .error (.shape (.tooDeep e.depth)) ⟨s, []⟩) ∧
    (e.depth ≤ 2 → ∀ calls t,
      ((∃ tree, e.compile resolver.recorded variant ⟨s, []⟩ = .ok tree ⟨t, calls⟩) ↔
        MetAll resolver (e.comparisons.map (Comparison.demand variant)) s t ∧
          calls = e.comparisons.filterMap Comparison.source?) ∧
      ∀ error,
        e.compile resolver.recorded variant ⟨s, []⟩ = .error error ⟨t, calls⟩ ↔
          FailsFirst resolver (e.comparisons.map (Comparison.demand variant)) s error calls t) ∧
    ∀ inner r,
      e.compile resolver.recorded variant ⟨s, []⟩ ≠ .error (.shape (.nestedGroup inner)) r := by
  have htooDeep (h : 2 < e.depth) : e.compile resolver.recorded variant ⟨s, []⟩ =
      .error (.shape (.tooDeep e.depth)) ⟨s, []⟩ := by
    rw [compile_of_tooDeep h]
    rfl
  have hsettles (h : e.depth ≤ 2) : Settles resolver.recorded (e.compile resolver.recorded variant)
      (e.comparisons.map (Comparison.demand variant)) := settles_compile h
  refine ⟨htooDeep, fun h calls t => ⟨?_, fun error => (hsettles h).eq_error_iff⟩, ?_⟩
  · have hnames : (e.comparisons.map (Comparison.demand variant)).filterMap Demand.name =
        e.comparisons.filterMap Comparison.source? := by
      rw [List.filterMap_map]
      rfl
    rw [(hsettles h).eq_ok_iff, hnames]
  · rintro inner ⟨t, calls⟩ herror
    by_cases h : e.depth ≤ 2
    · have hfails := (hsettles h).eq_error_iff.1 herror
      rcases hfails.of_comparisons with ⟨c, -, hc⟩ | ⟨name, cause, hname⟩
      · cases hc
      · cases hname
    · rw [htooDeep (Nat.lt_of_not_le h)] at herror
      cases herror

/-- A source that is out of reach for one question ends a run before the last comparison, and a rule
of three levels is refused while it is out of reach. -/
theorem Expression.compile_first_failure_outage :
    compile
        (Resolver.withOutages (Directory.ofPairs [("HR", "1"), ("Badges", "2")]).resolve).recorded
        .role
        (.logical .or [
          .logical .and [
            .comparison ⟨.equal, ⟨.account "HR", "a"⟩, .single "x"⟩,
            .comparison ⟨.oneOf, ⟨.identity, "b"⟩, .list ["y", "z"]⟩],
          .comparison ⟨.equal, ⟨.entitlement "Badges", "c"⟩, .single "x"⟩,
          .comparison ⟨.equal, ⟨.account "Guests", "d"⟩, .single "x"⟩])
        ⟨[⟨"Badges", "timeout", some 1⟩], []⟩ =
      .error (.resolution "Badges" (.unavailable "Badges" "timeout"))
        ⟨[⟨"Badges", "timeout", some 0⟩], ["HR", "Badges"]⟩ ∧
    compile
        (Resolver.withOutages (Directory.ofPairs [("HR", "1"), ("Badges", "2")]).resolve).recorded
        .role
        (.logical .or [.logical .and [.logical .or [
          .comparison ⟨.equal, ⟨.entitlement "Badges", "c"⟩, .single "x"⟩]]])
        ⟨[⟨"Badges", "timeout", some 1⟩], []⟩ =
      .error (.shape (.tooDeep 3)) ⟨[⟨"Badges", "timeout", some 1⟩], []⟩ := by
  constructor
  · refine (((compile_first_failure _ .role _ _).2.1 (by decide) _ _).2 _).2 ?_
    refine ⟨[_, _], _, [_], [⟨"Badges", "timeout", some 1⟩], ["Badges"], rfl, ?_, ?_, rfl⟩
    · exact .cons ⟨rfl, .answered rfl, rfl⟩ (.cons ⟨rfl, .nothing, rfl⟩ .nil)
    · exact .unresolved rfl rfl rfl
  · exact (compile_first_failure _ .role _ _).1 (by decide)

/-! ## Rendering -/

/-- What rendering demands of a leaf: the id of a source unless it speaks of the identity, then the
name of that source, and then a value. -/
def Leaf.demand (l : Leaf) : Demand where
  refused :=
    if l.key.kind ≠ .identity ∧ l.key.sourceId = none then some (.missingSourceId l.key.property)
    else none
  name := if l.key.kind = .identity then none else l.key.sourceId
  refusedLate := if l.value = .list [] then some (.emptyValues l.key.property) else none

/-- What rendering demands of a group: a leaf, and then what the leaves demand. -/
def Group.demands (g : Group) : List Demand :=
  if g.leaves = [] then [⟨some .emptyGroup, none, none⟩] else g.leaves.map Leaf.demand

/-- What rendering demands of a tree, group by group. -/
def Tree.demands (t : Tree) : List Demand := t.groups.flatMap Group.demands

section

variable {resolver : Resolver σ}

theorem Leaf.settles_comparison (l : Leaf) :
    Settles resolver (l.comparison resolver) [l.demand] := by
  refine .single ?_
  unfold comparison Leaf.scope Demand.settle demand
  -- The id of the source comes first, then the question, and the values come last.
  by_cases hkind : l.key.kind = .identity
  · by_cases hvalue : l.value = .list [] <;>
      simp [hkind, hvalue, refuse, Resolver.askFor, map_throw]
  · cases hid : l.key.sourceId with
    | none => simp [hkind, refuse, throw_bind, map_throw]
    | some id =>
      by_cases hvalue : l.value = .list [] <;>
        simp [hkind, hvalue, refuse, Resolver.askFor, map_throw]

theorem Group.settles_leafTexts (ls : List Leaf) :
    Settles resolver (leafTexts resolver ls) (ls.map Leaf.demand) := by
  rw [leafTexts_eq_mapM]
  exact .mapM_map ls fun l => l.settles_comparison.bind_pure Comparison.text

theorem Group.settles_render (g : Group) : Settles resolver (g.render resolver) g.demands := by
  unfold render demands
  by_cases hempty : g.leaves = []
  · rw [if_pos hempty, if_pos hempty]
    exact .single rfl
  · rw [if_neg hempty, if_neg hempty]
    exact (settles_leafTexts g.leaves).bind_pure fun texts =>
      g.operation.separator.intercalate texts

theorem Tree.settles_groupTexts (gs : List Group) :
    Settles resolver (groupTexts resolver gs) (gs.flatMap Group.demands) := by
  rw [groupTexts_eq_mapM]
  exact .mapM gs fun g _ => g.settles_render.bind_pure fun text => "(" ++ text ++ ")"

/-- Groups of one leaf each demand what their leaves demand. -/
theorem Tree.demands_of_single {gs : List Group}
    (h : (gs.all fun g => g.leaves.length == 1) = true) :
    gs.flatMap Group.demands = (gs.flatMap Group.leaves).map Leaf.demand := by
  rw [List.map_flatMap]
  refine List.flatMap_congr fun g hg => ?_
  have hlength : g.leaves.length = 1 := by simpa using List.all_eq_true.1 h g hg
  have hne : g.leaves ≠ [] := List.ne_nil_of_length_pos (by omega)
  exact if_neg hne

/-- The names that a tree demands are those of its leaves. -/
theorem Tree.names_demands (t : Tree) :
    t.demands.filterMap Demand.name = t.leaves.filterMap fun l => l.demand.name := by
  have hgroup (g : Group) :
      g.demands.filterMap Demand.name = g.leaves.filterMap fun l => l.demand.name := by
    by_cases hempty : g.leaves = []
    · simp [Group.demands, hempty]
    · rw [Group.demands, if_neg hempty, List.filterMap_map]
      rfl
  simp only [demands, leaves, List.filterMap_flatMap, hgroup]

/-- The three layouts make the same demands. -/
theorem Tree.settles_render (t : Tree) : Settles resolver (t.render resolver) t.demands := by
  obtain ⟨op, gs⟩ := t
  by_cases hseveral : 2 ≤ gs.length
  · rw [render_several hseveral, demands]
    split
    · rename_i hsingle
      -- The flat layout goes through the leaves at once, so it never finds a group empty.
      rw [demands_of_single hsingle]
      exact (Group.settles_leafTexts _).bind_pure fun texts => op.separator.intercalate texts
    · exact (settles_groupTexts gs).bind_pure fun texts => op.separator.intercalate texts
  · match gs with
    | [] => exact .pure ""
    | [g] =>
      have hdemands : demands ⟨op, [g]⟩ = g.demands := by simp [demands]
      rw [hdemands]
      exact g.settles_render
    | _ :: _ :: _ => simp at hseveral

end

/-- Rendering goes through the groups and their leaves in order, up to the first that fails, and it
asks for the sources of the leaves that it comes to, each once. A tree without groups has the empty
text. -/
theorem Tree.render_first_failure (resolver : Resolver σ) (t : Tree) (s : σ) :
    (t.groups = [] → t.render resolver.recorded ⟨s, []⟩ = .ok "" ⟨s, []⟩) ∧
    ∀ calls u,
      ((∃ text, t.render resolver.recorded ⟨s, []⟩ = .ok text ⟨u, calls⟩) ↔
        MetAll resolver t.demands s u ∧ calls = t.leaves.filterMap fun l => l.demand.name) ∧
      ∀ error,
        t.render resolver.recorded ⟨s, []⟩ = .error error ⟨u, calls⟩ ↔
          FailsFirst resolver t.demands s error calls u := by
  refine ⟨fun h => ?_, fun calls u => ⟨?_, fun error => t.settles_render.eq_error_iff⟩⟩
  · obtain ⟨op, gs⟩ := t
    obtain rfl : gs = [] := h
    rfl
  · rw [t.settles_render.eq_ok_iff, names_demands]

/-- The group without leaves is refused before the leaf behind it whose source has no name, and
after the sources of the leaves before it. -/
theorem Tree.render_first_failure_emptyGroup :
    render (Directory.ofPairs [("1", "HR")]).resolver.recorded
        ⟨.and, [
          ⟨.or, [
            ⟨.equals, ⟨.account, "attribute.a", some "1"⟩, .single "x"⟩,
            ⟨.equals, ⟨.identity, "attribute.b", some "2"⟩, .single "x"⟩]⟩,
          ⟨.or, []⟩,
          ⟨.or, [⟨.equals, ⟨.entitlement, "attribute.c", some "2"⟩, .single "x"⟩]⟩]⟩
        ⟨(), []⟩ =
      .error (.shape .emptyGroup) ⟨(), ["1"]⟩ ∧
    render (Directory.ofPairs [("1", "HR")]).resolver.recorded ⟨.and, []⟩ ⟨(), []⟩ =
      .ok "" ⟨(), []⟩ := by
  constructor
  · refine (((render_first_failure _ _ _).2 _ _).2 _).2 ?_
    refine ⟨[_, _], _, [_], (), [], rfl, ?_, .refused rfl, rfl⟩
    exact .cons ⟨rfl, .answered rfl, rfl⟩ (.cons ⟨rfl, .nothing, rfl⟩ .nil)
  · exact (render_first_failure _ ⟨.and, []⟩ _).1 rfl

end Eligibility
