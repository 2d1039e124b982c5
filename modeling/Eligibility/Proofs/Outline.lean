import Eligibility.Expression.Compile

/-!
# The outline of an expression

The tiers of a criteria tree can be told from an expression alone, before any source is resolved:
the outline of an expression has the connectives of its tree, and comparisons in the place of
leaves. Compiling an expression is compiling the comparisons of its outline one after the other
(`Expression.compile_eq`), which separates what the shape of an expression decides from what its
sources decide.
-/

namespace Eligibility

/-- The tiers of a criteria tree with comparisons in the place of leaves. -/
structure Outline where
  /-- The connective of the root. -/
  operation : Connective
  /-- The connectives of the groups, with the comparisons below them. -/
  groups : List (Connective × List Comparison)

/-- The tree with this outline in which every comparison is the given leaf. -/
def Outline.tree (o : Outline) (leaf : Comparison → Leaf) : Tree :=
  ⟨o.operation, o.groups.map fun g => ⟨g.1, g.2.map leaf⟩⟩

/-- The comparisons of an outline in order. -/
def Outline.comparisons (o : Outline) : List Comparison := o.groups.flatMap (·.2)

theorem Outline.leaves_tree (o : Outline) (leaf : Comparison → Leaf) :
    (o.tree leaf).leaves = o.comparisons.map leaf := by
  simp [tree, Tree.leaves, comparisons, List.flatMap_map, List.map_flatMap]

/-- A connective over a single part adds nothing to it. -/
theorem Connective.combine_single (op : Connective) (b : Bool) : op.combine [b] = b := by
  cases op <;> simp [combine]

namespace Expression

/-- The group that a part of an expression becomes below the given connective. -/
def outlineGroup (op : Connective) : Expression → Connective × List Comparison
  | .comparison c => (op.complement, [c])
  | .logical inner children => (inner, comparisonsAll children)

/-- The outline of an expression of at most two levels. -/
def outline : Expression → Outline
  | .comparison c => ⟨.or, [(.and, [c])]⟩
  | .logical op children =>
    if depthAll children = 0 then ⟨op.complement, [(op, comparisonsAll children)]⟩
    else ⟨op, children.map (outlineGroup op)⟩

theorem outline_flat {op : Connective} {children : List Expression} (h : depthAll children = 0) :
    (logical op children).outline = ⟨op.complement, [(op, comparisonsAll children)]⟩ :=
  if_pos h

theorem outline_nested {op : Connective} {children : List Expression} (h : depthAll children ≠ 0) :
    (logical op children).outline = ⟨op, children.map (outlineGroup op)⟩ :=
  if_neg h

/-! ## Depth -/

theorem depthAll_cons (e : Expression) (es : List Expression) :
    depthAll (e :: es) = max e.depth (depthAll es) := by
  rw [depthAll]

theorem depth_logical (op : Connective) (children : List Expression) :
    (logical op children).depth = 1 + depthAll children := by
  rw [depth]

/-- Only comparisons have no level of connectives. -/
theorem eq_comparison_of_depth {e : Expression} (h : e.depth = 0) : ∃ c, e = .comparison c := by
  cases e with
  | comparison c => exact ⟨c, rfl⟩
  | logical op children =>
    rw [depth_logical] at h
    omega

/-! ## The comparisons of an outline -/

theorem comparisons_outlineGroup (op : Connective) (e : Expression) :
    (outlineGroup op e).2 = e.comparisons := by
  cases e <;> simp [outlineGroup, comparisons]

theorem comparisonsAll_eq_flatMap (es : List Expression) :
    comparisonsAll es = es.flatMap comparisons := by
  induction es with
  | nil => simp [comparisonsAll]
  | cons e es ih => simp [comparisonsAll, ih]

/-- No comparison is lost, and their order is kept. -/
theorem comparisons_outline (e : Expression) : e.outline.comparisons = e.comparisons := by
  cases e with
  | comparison c => simp [outline, Outline.comparisons, comparisons]
  | logical op children =>
    by_cases hflat : depthAll children = 0
    · simp [outline_flat hflat, Outline.comparisons, comparisons]
    · simp [outline_nested hflat, Outline.comparisons, List.flatMap_map, comparisons_outlineGroup,
        comparisons, comparisonsAll_eq_flatMap]

/-! ## The meaning of an outline -/

theorem evalAll_eq_map (truth : Comparison → Bool) (es : List Expression) :
    evalAll truth es = es.map (eval truth) := by
  induction es with
  | nil => simp [evalAll]
  | cons e es ih => simp [evalAll, ih]

theorem map_eval_of_depthAll (truth : Comparison → Bool) {es : List Expression}
    (h : depthAll es = 0) : es.map (eval truth) = (comparisonsAll es).map truth := by
  induction es with
  | nil => simp [comparisonsAll]
  | cons e es ih =>
    rw [depthAll_cons] at h
    obtain ⟨c, rfl⟩ := eq_comparison_of_depth (e := e) (by omega)
    simp [comparisonsAll, comparisons, eval, ih (by omega)]

/-- A group means what the part of the expression means that it stands for. -/
theorem eval_outlineGroup {truth : Leaf → Bool} {leaf : Comparison → Leaf} (op : Connective)
    {e : Expression} (h : e.depth ≤ 1) :
    Group.eval truth ⟨(outlineGroup op e).1, (outlineGroup op e).2.map leaf⟩ =
      e.eval fun c => truth (leaf c) := by
  cases e with
  | comparison c => simp [outlineGroup, Group.eval, eval, Connective.combine_single]
  | logical inner children =>
    rw [depth_logical] at h
    have hchildren : depthAll children = 0 := by omega
    have hflat := map_eval_of_depthAll (fun c => truth (leaf c)) hchildren
    simp [outlineGroup, Group.eval, eval, evalAll_eq_map, hflat, Function.comp_def]

theorem depth_le_of_mem {e : Expression} {es : List Expression} (h : e ∈ es) :
    e.depth ≤ depthAll es := by
  induction es with
  | nil => cases h
  | cons d es ih =>
    rw [depthAll_cons]
    rcases List.mem_cons.1 h with rfl | h
    · omega
    · have := ih h
      omega

theorem depthAll_le {es : List Expression} {n : Nat} (h : ∀ e ∈ es, e.depth ≤ n) :
    depthAll es ≤ n := by
  induction es with
  | nil => simp [depthAll]
  | cons e es ih =>
    have hhead := h e List.mem_cons_self
    have htail := ih fun x hx => h x (List.mem_cons_of_mem e hx)
    rw [depthAll_cons]
    omega

/-- The tree with the outline of an expression means what the expression means: a level that is put
in holds a single part, so its connective does not matter. -/
theorem eval_outline {truth : Leaf → Bool} {leaf : Comparison → Leaf} {e : Expression}
    (h : e.depth ≤ maxDepth) :
    (e.outline.tree leaf).eval truth = e.eval fun c => truth (leaf c) := by
  cases e with
  | comparison c =>
    simp [outline, Outline.tree, Tree.eval, Group.eval, Connective.combine_single, eval]
  | logical op children =>
    rw [depth_logical, maxDepth] at h
    by_cases hflat : depthAll children = 0
    · have hchildren := map_eval_of_depthAll (fun c => truth (leaf c)) hflat
      simp [outline_flat hflat, Outline.tree, Tree.eval, Group.eval, Connective.combine_single,
        eval, evalAll_eq_map, hchildren, Function.comp_def]
    · simp only [outline_nested hflat, Outline.tree, Tree.eval, List.map_map, eval, evalAll_eq_map]
      congr 1
      refine List.map_congr_left fun e he => ?_
      exact eval_outlineGroup op (Nat.le_trans (depth_le_of_mem he) (by omega))

end Expression

end Eligibility
