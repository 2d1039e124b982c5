import Eligibility.Proofs.Outline
import Eligibility.Proofs.Runs

/-!
# What compiling an expression keeps

Compiling loses no comparison and keeps their order, and the tree means what the expression means:
under every assignment of truth values to leaves the two have the same truth value. This holds for
every resolver whose answers depend on the name alone.
-/

namespace Eligibility

variable {σ : Type}

/-! ## Compiling by the outline -/

/-- Compiles the comparisons of a group. -/
def Outline.compileGroup (resolver : Resolver σ) (variant : Variant)
    (g : Connective × List Comparison) : Criteria σ Group := do
  let leaves ← g.2.mapM fun c => c.compile resolver variant
  return ⟨g.1, leaves⟩

/-- Compiles the comparisons of an outline, group after group. -/
def Outline.compile (resolver : Resolver σ) (variant : Variant) (o : Outline) :
    Criteria σ Tree := do
  let groups ← o.groups.mapM (compileGroup resolver variant)
  return ⟨o.operation, groups⟩

namespace Expression

variable {resolver : Resolver σ} {variant : Variant}

theorem compileLeaves_eq (resolver : Resolver σ) (variant : Variant) {es : List Expression}
    (h : depthAll es = 0) :
    compileLeaves resolver variant es =
      (comparisonsAll es).mapM fun c => c.compile resolver variant := by
  induction es with
  | nil => simp [compileLeaves, comparisonsAll]
  | cons e es ih =>
    rw [depthAll_cons] at h
    obtain ⟨c, rfl⟩ := eq_comparison_of_depth (e := e) (by omega)
    simp [compileLeaves, comparisonsAll, comparisons, ih (by omega)]

theorem compileGroups_eq {op : Connective} {es : List Expression} (h : depthAll es ≤ 1) :
    compileGroups resolver variant op es =
      (es.map (outlineGroup op)).mapM (Outline.compileGroup resolver variant) := by
  induction es with
  | nil => simp [compileGroups]
  | cons e es ih =>
    rw [depthAll_cons] at h
    have htail := ih (by omega)
    cases e with
    | comparison c =>
      simp [compileGroups, outlineGroup, Outline.compileGroup, htail]
    | logical inner children =>
      rw [depth_logical] at h
      have hflat : depthAll children = 0 := by omega
      have hleaves := compileLeaves_eq resolver variant hflat
      simp [compileGroups, compileGroup, outlineGroup, Outline.compileGroup, htail, hleaves]

/-- Compiling an expression that is not too deep is compiling its outline. -/
theorem compile_eq {e : Expression} (h : e.depth ≤ maxDepth) :
    e.compile resolver variant = e.outline.compile resolver variant := by
  have hdepth : ¬ e.depth > maxDepth := Nat.not_lt.2 h
  cases e with
  | comparison c =>
    simp [compile, hdepth, outline, Outline.compile, Outline.compileGroup]
  | logical op children =>
    rw [depth_logical, maxDepth] at h
    by_cases hflat : depthAll children = 0
    · have hone : (logical op children).depth = 1 := by rw [depth_logical, hflat]
      simp [compile, hone, maxDepth, outline_flat hflat, Outline.compile, Outline.compileGroup,
        compileGroup, compileLeaves_eq resolver variant hflat]
    · have hone : (logical op children).depth ≠ 1 := by
        rw [depth_logical]
        omega
      have hchildren : depthAll children ≤ 1 := by omega
      simp [compile, hdepth, hone, outline_nested hflat, Outline.compile,
        compileGroups_eq hchildren]

theorem compile_of_tooDeep {e : Expression} (h : maxDepth < e.depth) :
    e.compile resolver variant = throw (.shape (.tooDeep e.depth)) :=
  if_pos h

end Expression

/-! ## Compiling a comparison -/

namespace Comparison

variable {resolver : Resolver σ} {variant : Variant} {c : Comparison}

/-- Whether the variant has no leaf for the comparison because of its list of values. -/
def IsRefused (variant : Variant) (c : Comparison) : Prop :=
  variant = .dimension ∧ c.value.isList = true

theorem not_isRefused_role (c : Comparison) : ¬ c.IsRefused .role := fun h => nomatch h.1

theorem compile_of_isRefused (h : c.IsRefused variant) :
    c.compile resolver variant = throw (.shape (.listInDimension c)) := by
  simp [compile, h.1, h.2]

theorem compile_of_noSource (h : ¬ c.IsRefused variant) (hsource : c.source? = none) :
    c.compile resolver variant = return c.leaf none := by
  have hrefused : (variant = .dimension && c.value.isList) = false := by
    simpa [IsRefused] using h
  simp [compile, hrefused, hsource]

theorem compile_of_source {source : String} (h : ¬ c.IsRefused variant)
    (hsource : c.source? = some source) :
    c.compile resolver variant = do
      let id ← resolver.ask source
      return c.leaf (some id) := by
  have hrefused : (variant = .dimension && c.value.isList) = false := by
    simpa [IsRefused] using h
  simp [compile, hrefused, hsource]

end Comparison

theorem Resolver.ask_ok {resolver : Resolver σ} {name id : String} {s s' : σ}
    (h : resolver name s = .ok id s') : resolver.ask name s = .ok id s' := by
  simp [ask, EStateM.adaptExcept, h]

theorem Resolver.ask_error {resolver : Resolver σ} {name : String} {e : LookupError} {s s' : σ}
    (h : resolver name s = .error e s') :
    resolver.ask name s = .error (.resolution name e) s' := by
  simp [ask, EStateM.adaptExcept, h]

/-! ## Resolvers that are functions of the name -/

/-- The resolver gives this answer for every name, whatever was asked before. -/
def Resolver.Answers (resolver : Resolver σ) (answer : String → Except LookupError String) : Prop :=
  ∀ name s, (∃ id s', answer name = .ok id ∧ resolver name s = .ok id s') ∨
    ∃ e s', answer name = .error e ∧ resolver name s = .error e s'

theorem Resolver.answers_ofFunction (answer : String → Except LookupError String) :
    (ofFunction answer : Resolver σ).Answers answer := by
  intro name s
  unfold ofFunction
  cases answer name with
  | ok id => exact .inl ⟨id, s, rfl, rfl⟩
  | error e => exact .inr ⟨e, s, rfl, rfl⟩

theorem Resolver.Answers.eq_ok_of_ask {resolver : Resolver σ}
    {answer : String → Except LookupError String} (hanswer : resolver.Answers answer)
    {name id : String} {s s' : σ} (h : resolver.ask name s = .ok id s') : answer name = .ok id := by
  rcases hanswer name s with ⟨id', t, hid, hask⟩ | ⟨e, t, -, hask⟩
  · rw [ask_ok hask] at h
    cases h
    exact hid
  · rw [ask_error hask] at h
    cases h

/-- The leaf that a comparison is lowered to when sources have the given ids. -/
def Comparison.lowered (answer : String → Except LookupError String) (c : Comparison) : Leaf :=
  { operation := c.operator.predicate
    key :=
      match c.subject.scope with
      | .identity => ⟨.identity, "attribute." ++ c.subject.property, none⟩
      | .account source =>
        ⟨.account, "attribute." ++ c.subject.property, (answer source).toOption⟩
      | .entitlement source =>
        ⟨.entitlement, "attribute." ++ c.subject.property, (answer source).toOption⟩
    value := c.value }

/-- The source of the comparison is resolved, if it names one. -/
def Comparison.Resolved (answer : String → Except LookupError String) (c : Comparison) : Prop :=
  ∀ source, c.source? = some source → ∃ id, answer source = .ok id

theorem Comparison.leaf_of_resolved {answer : String → Except LookupError String}
    {c : Comparison} {source id : String} (hsource : c.source? = some source)
    (hanswer : answer source = .ok id) : c.leaf (some id) = c.lowered answer := by
  obtain ⟨operator, ⟨scope, property⟩, value⟩ := c
  cases scope with
  | identity => cases hsource
  | account =>
    obtain rfl : _ = source := Option.some.inj hsource
    simp [leaf, lowered, hanswer, Scope.keyKind, propertyOfName, propertyStart, Except.toOption]
  | entitlement =>
    obtain rfl : _ = source := Option.some.inj hsource
    simp [leaf, lowered, hanswer, Scope.keyKind, propertyOfName, propertyStart, Except.toOption]

theorem Comparison.leaf_of_noSource (answer : String → Except LookupError String)
    {c : Comparison} (hsource : c.source? = none) : c.leaf none = c.lowered answer := by
  obtain ⟨operator, ⟨scope, property⟩, value⟩ := c
  cases scope with
  | identity => rfl
  | account => cases hsource
  | entitlement => cases hsource

theorem Comparison.lowered_congr {answer answer' : String → Except LookupError String}
    {c : Comparison} (h : ∀ source, c.source? = some source → answer source = answer' source) :
    c.lowered answer = c.lowered answer' := by
  obtain ⟨op, ⟨scope, property⟩, value⟩ := c
  cases scope with
  | identity => rfl
  | account source => simp [lowered, h source rfl]
  | entitlement source => simp [lowered, h source rfl]

/-- A comparison that compiles becomes the leaf it is lowered to. -/
theorem Comparison.eq_lowered_of_compile {resolver : Resolver σ}
    {answer : String → Except LookupError String} (hanswer : resolver.Answers answer)
    {variant : Variant} {c : Comparison} {s s' : σ} {l : Leaf}
    (h : c.compile resolver variant s = .ok l s') :
    l = c.lowered answer ∧ c.Resolved answer ∧ ¬ c.IsRefused variant := by
  by_cases hrefused : c.IsRefused variant
  · rw [compile_of_isRefused hrefused] at h
    cases h
  · cases hsource : c.source? with
    | none =>
      rw [compile_of_noSource hrefused hsource] at h
      cases h
      exact ⟨leaf_of_noSource answer hsource, by simp [Resolved, hsource], hrefused⟩
    | some source =>
      rw [compile_of_source hrefused hsource] at h
      obtain ⟨id, t, hask, h⟩ := bind_eq_ok.1 h
      cases h
      have hid := hanswer.eq_ok_of_ask hask
      refine ⟨leaf_of_resolved hsource hid, fun other hother => ⟨id, ?_⟩, hrefused⟩
      rw [hsource] at hother
      cases hother
      exact hid

/-- The tree that an outline compiles to. -/
theorem Outline.eq_tree_of_compile {resolver : Resolver σ}
    {answer : String → Except LookupError String} (hanswer : resolver.Answers answer)
    {variant : Variant} {o : Outline} {s s' : σ} {t : Tree}
    (h : o.compile resolver variant s = .ok t s') :
    t = o.tree (Comparison.lowered answer) ∧
      ∀ c ∈ o.comparisons, c.Resolved answer ∧ ¬ c.IsRefused variant := by
  have hgroup : ∀ (g : Connective × List Comparison) (s : σ) (group : Group) (s' : σ),
      compileGroup resolver variant g s = .ok group s' →
        group = ⟨g.1, g.2.map (Comparison.lowered answer)⟩ ∧
          ∀ c ∈ g.2, c.Resolved answer ∧ ¬ c.IsRefused variant := by
    intro g s group s' hrun
    obtain ⟨leaves, u, hleaves, hrun⟩ := bind_eq_ok.1 hrun
    cases hrun
    obtain ⟨rfl, hresolved⟩ :=
      eq_map_of_mapM (fun _ _ _ _ hc => Comparison.eq_lowered_of_compile hanswer hc) hleaves
    exact ⟨rfl, hresolved⟩
  obtain ⟨groups, u, hgroups, h⟩ := bind_eq_ok.1 h
  cases h
  obtain ⟨rfl, hresolved⟩ := eq_map_of_mapM hgroup hgroups
  refine ⟨rfl, fun c hc => ?_⟩
  obtain ⟨g, hg, hcg⟩ := List.mem_flatMap.1 hc
  exact hresolved g hg c hcg

/-- What is known of an expression that compiles. -/
theorem Expression.eq_tree_of_compile {resolver : Resolver σ}
    {answer : String → Except LookupError String} (hanswer : resolver.Answers answer)
    {variant : Variant} {e : Expression} {s s' : σ} {t : Tree}
    (h : e.compile resolver variant s = .ok t s') :
    e.depth ≤ maxDepth ∧ t = e.outline.tree (Comparison.lowered answer) ∧
      ∀ c ∈ e.comparisons, c.Resolved answer ∧ ¬ c.IsRefused variant := by
  by_cases hdepth : e.depth ≤ maxDepth
  · rw [compile_eq hdepth] at h
    obtain ⟨ht, hresolved⟩ := Outline.eq_tree_of_compile hanswer h
    rw [comparisons_outline] at hresolved
    exact ⟨hdepth, ht, hresolved⟩
  · rw [compile_of_tooDeep (Nat.lt_of_not_le hdepth)] at h
    cases h

/-- An outline compiles if each of its comparisons does. -/
theorem Outline.compile_eq_ok {resolver : Resolver σ} {variant : Variant} {o : Outline}
    {leaf : Comparison → Leaf}
    (h : ∀ c ∈ o.comparisons, ∀ s, c.compile resolver variant s = .ok (leaf c) s) (s : σ) :
    o.compile resolver variant s = .ok (o.tree leaf) s := by
  have hgroup : ∀ g ∈ o.groups,
      compileGroup resolver variant g s = .ok ⟨g.1, g.2.map leaf⟩ s := by
    intro g hg
    have hleaves := mapM_eq_map fun c hc => h c (List.mem_flatMap.2 ⟨g, hg, hc⟩) s
    exact bind_eq_ok.2 ⟨_, s, hleaves, rfl⟩
  exact bind_eq_ok.2 ⟨_, s, mapM_eq_map hgroup, rfl⟩

/-- Compiling keeps the comparisons, their order and the Boolean meaning. -/
theorem Expression.compile_preserves_meaning {resolver : Resolver σ}
    {answer : String → Except LookupError String} (hanswer : resolver.Answers answer)
    {variant : Variant} {e : Expression} {s s' : σ} {t : Tree}
    (h : e.compile resolver variant s = .ok t s') :
    t.leaves = e.comparisons.map (Comparison.lowered answer) ∧
      (∀ c ∈ e.comparisons, c.Resolved answer) ∧
      ∀ truth : Leaf → Bool, t.eval truth = e.eval fun c => truth (c.lowered answer) := by
  obtain ⟨hdepth, rfl, hresolved⟩ := eq_tree_of_compile hanswer h
  refine ⟨?_, fun c hc => (hresolved c hc).1, fun truth => eval_outline hdepth⟩
  rw [Outline.leaves_tree, comparisons_outline]

/-- A connective over nothing and one over a single comparison, beside a bare comparison. -/
theorem Expression.compile_preserves_meaning_degenerate :
    Tree.leaves ⟨.or, [
        ⟨.and, []⟩,
        ⟨.and, [⟨.contains, ⟨.account, "attribute.a", some "id of HR"⟩, .single "x"⟩]⟩,
        ⟨.or, [⟨.equals, ⟨.identity, "attribute.b", none⟩, .list ["y"]⟩]⟩]⟩ =
      (Expression.logical .or [
        .logical .and [],
        .comparison ⟨.contains, ⟨.account "HR", "a"⟩, .single "x"⟩,
        .logical .or [.comparison ⟨.oneOf, ⟨.identity, "b"⟩, .list ["y"]⟩]]).comparisons.map
          (Comparison.lowered fun name => .ok ("id of " ++ name)) := by
  have hanswer : (Resolver.ofFunction fun name => .ok ("id of " ++ name) : Resolver Unit).Answers
      fun name => .ok ("id of " ++ name) := Resolver.answers_ofFunction _
  exact (compile_preserves_meaning hanswer (Eq.refl (compile _ .role _ ()))).1

end Eligibility
