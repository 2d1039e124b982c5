import Eligibility.Proofs.Outline
import Eligibility.Proofs.Regularity

/-!
# Changing the comparisons of an expression

`Expression.mapComparisons` puts other comparisons in the place of those of an expression and leaves
everything else: the connectives, the grouping and the order. So the outline of the new expression
is the old one with the same change (`Expression.outline_mapComparisons`).
-/

namespace Eligibility

/-- The outline with a change made to every comparison. -/
def Outline.map (g : Comparison → Comparison) (o : Outline) : Outline :=
  ⟨o.operation, o.groups.map fun group => (group.1, group.2.map g)⟩

theorem Outline.tree_map (g : Comparison → Comparison) (o : Outline) (leaf : Comparison → Leaf) :
    (o.map g).tree leaf = o.tree fun c => leaf (g c) := by
  simp [map, tree, Function.comp_def]

/-- The tree depends only on the leaves for the comparisons of the outline. -/
theorem Outline.tree_congr {o : Outline} {leaf leaf' : Comparison → Leaf}
    (h : ∀ c ∈ o.comparisons, leaf c = leaf' c) : o.tree leaf = o.tree leaf' := by
  unfold tree
  congr 1
  refine List.map_congr_left fun group hgroup => ?_
  congr 1
  exact List.map_congr_left fun c hc => h c (List.mem_flatMap.2 ⟨group, hgroup, hc⟩)

namespace Expression

mutual

/-- The expression with a change made to every comparison. -/
def mapComparisons (g : Comparison → Comparison) : Expression → Expression
  | .comparison c => .comparison (g c)
  | .logical op children => .logical op (mapComparisonsAll g children)

/-- Several expressions with a change made to every comparison. -/
def mapComparisonsAll (g : Comparison → Comparison) : List Expression → List Expression
  | [] => []
  | e :: es => e.mapComparisons g :: mapComparisonsAll g es

end

variable {g : Comparison → Comparison}

theorem mapComparisonsAll_eq_map (g : Comparison → Comparison) (es : List Expression) :
    mapComparisonsAll g es = es.map (mapComparisons g) := by
  induction es with
  | nil => simp [mapComparisonsAll]
  | cons e es ih => simp [mapComparisonsAll, ih]

mutual

theorem depth_mapComparisons (g : Comparison → Comparison) : ∀ e : Expression,
    (e.mapComparisons g).depth = e.depth
  | .comparison _ => by simp [mapComparisons, depth]
  | .logical _ children => by
    simp [mapComparisons, depth, depthAll_mapComparisonsAll g children]

theorem depthAll_mapComparisonsAll (g : Comparison → Comparison) : ∀ es : List Expression,
    depthAll (mapComparisonsAll g es) = depthAll es
  | [] => by simp [mapComparisonsAll]
  | e :: es => by
    simp [mapComparisonsAll, depthAll, depth_mapComparisons g e, depthAll_mapComparisonsAll g es]

end

mutual

theorem comparisons_mapComparisons (g : Comparison → Comparison) : ∀ e : Expression,
    (e.mapComparisons g).comparisons = e.comparisons.map g
  | .comparison _ => by simp [mapComparisons, comparisons]
  | .logical _ children => by
    simp [mapComparisons, comparisons, comparisonsAll_mapComparisonsAll g children]

theorem comparisonsAll_mapComparisonsAll (g : Comparison → Comparison) : ∀ es : List Expression,
    comparisonsAll (mapComparisonsAll g es) = (comparisonsAll es).map g
  | [] => by simp [mapComparisonsAll, comparisonsAll]
  | e :: es => by
    simp [mapComparisonsAll, comparisonsAll, comparisons_mapComparisons g e,
      comparisonsAll_mapComparisonsAll g es]

end

mutual

theorem mapComparisons_eq_self : ∀ {e : Expression}, (∀ c ∈ e.comparisons, g c = c) →
    e.mapComparisons g = e
  | .comparison c, h => by
    rw [mapComparisons, h c (by simp [comparisons])]
  | .logical _ children, h => by
    rw [comparisons] at h
    rw [mapComparisons, mapComparisonsAll_eq_self h]

theorem mapComparisonsAll_eq_self : ∀ {es : List Expression}, (∀ c ∈ comparisonsAll es, g c = c) →
    mapComparisonsAll g es = es
  | [], _ => by rw [mapComparisonsAll]
  | e :: es, h => by
    rw [comparisonsAll] at h
    rw [mapComparisonsAll, mapComparisons_eq_self fun c hc => h c (List.mem_append_left _ hc),
      mapComparisonsAll_eq_self fun c hc => h c (List.mem_append_right _ hc)]

end

mutual

/-- A change that keeps values keeps regularity. -/
theorem isRegular_mapComparisons (hg : ∀ c, (g c).value = c.value) : ∀ e : Expression,
    e.IsRegular → (e.mapComparisons g).IsRegular
  | .comparison c, h => by
    rw [IsRegular] at h
    rwa [mapComparisons, IsRegular, hg]
  | .logical op children, h => by
    rw [IsRegular] at h
    rw [mapComparisons, IsRegular, mapComparisonsAll_eq_map, List.length_map,
      ← mapComparisonsAll_eq_map]
    exact ⟨h.1, allRegular_mapComparisonsAll hg children h.2⟩

theorem allRegular_mapComparisonsAll (hg : ∀ c, (g c).value = c.value) : ∀ es : List Expression,
    AllRegular es → AllRegular (mapComparisonsAll g es)
  | [], _ => by simp [mapComparisonsAll, AllRegular]
  | e :: es, h => by
    rw [AllRegular] at h
    rw [mapComparisonsAll, AllRegular]
    exact ⟨isRegular_mapComparisons hg e h.1, allRegular_mapComparisonsAll hg es h.2⟩

end

theorem outlineGroup_mapComparisons (g : Comparison → Comparison) (op : Connective)
    (e : Expression) :
    outlineGroup op (e.mapComparisons g) =
      ((outlineGroup op e).1, (outlineGroup op e).2.map g) := by
  cases e with
  | comparison c => simp [mapComparisons, outlineGroup]
  | logical inner children =>
    simp [mapComparisons, outlineGroup, comparisonsAll_mapComparisonsAll]

/-- The outline changes only in its comparisons. -/
theorem outline_mapComparisons (g : Comparison → Comparison) (e : Expression) :
    (e.mapComparisons g).outline = e.outline.map g := by
  cases e with
  | comparison c => simp [mapComparisons, outline, Outline.map]
  | logical op children =>
    rw [mapComparisons]
    by_cases hflat : depthAll children = 0
    · rw [outline_flat hflat, outline_flat (by rw [depthAll_mapComparisonsAll, hflat]),
        comparisonsAll_mapComparisonsAll]
      rfl
    · rw [outline_nested hflat, outline_nested (by rwa [depthAll_mapComparisonsAll]),
        mapComparisonsAll_eq_map]
      simp [Outline.map, outlineGroup_mapComparisons, Function.comp_def]

end Expression

end Eligibility
