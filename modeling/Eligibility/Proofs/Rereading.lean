import Eligibility.Proofs.Layout
import Eligibility.Proofs.Normalization

/-!
# What the text of an outline is read as

The text of any outline, also of one that no expression has, can be read again: as
`Outline.expression`. The groups of the outline become parts of one level, or of two, and a
connective that the text does not show is lost. So the outline of that expression is the normal one
(`Outline.tree_expression`), and it has the same text (`Outline.text_expression`).
-/

namespace Eligibility

/-- What the text of a group is read as. -/
def Outline.groupExpression (group : Connective × List Comparison) : Expression :=
  .joined group.1 (group.2.map .comparison)

/-- What the text of an outline is read as. -/
def Outline.expression (o : Outline) : Expression :=
  match o.groups with
  | [group] => groupExpression group
  | groups =>
    if groups.all fun group => group.2.length == 1 then groupExpression (o.operation, o.comparisons)
    else .logical o.operation (groups.map groupExpression)

/-- An outline that has a text: there are comparisons in every group, and values in every list. -/
structure Outline.IsWritten (o : Outline) : Prop where
  /-- There is a group. -/
  groups : o.groups ≠ []
  /-- No group is empty. -/
  comparisons : ∀ group ∈ o.groups, group.2 ≠ []
  /-- No list of values is empty. -/
  values : ∀ group ∈ o.groups, ∀ c ∈ group.2, c.value ≠ .list []

namespace Outline

/-! ## Groups -/

section Group

variable {op outer : Connective} {cs : List Comparison}

theorem groupExpression_single {c : Comparison} : groupExpression (op, [c]) = .comparison c := rfl

theorem groupExpression_several (h : cs.length ≠ 1) :
    groupExpression (op, cs) = .logical op (cs.map .comparison) := by
  match cs, h with
  | [], _ => rfl
  | _ :: _ :: _, _ => rfl

theorem comparisonsAll_map_comparison (cs : List Comparison) :
    Expression.comparisonsAll (cs.map .comparison) = cs := by
  induction cs with
  | nil => simp [Expression.comparisonsAll]
  | cons c cs ih => simp [Expression.comparisonsAll, Expression.comparisons, ih]

theorem comparisons_groupExpression (group : Connective × List Comparison) :
    (groupExpression group).comparisons = group.2 := by
  obtain ⟨op, cs⟩ := group
  by_cases hone : cs.length = 1
  · obtain ⟨c, rfl⟩ := List.length_eq_one_iff.1 hone
    rw [groupExpression_single, Expression.comparisons]
  · rw [groupExpression_several hone, Expression.comparisons, comparisonsAll_map_comparison]

theorem depthAll_map_comparison (cs : List Comparison) :
    Expression.depthAll (cs.map .comparison) = 0 := by
  induction cs with
  | nil => simp [Expression.depthAll]
  | cons c cs ih => simp [Expression.depthAll, Expression.depth, ih]

theorem depth_groupExpression_of_ne (h : cs.length ≠ 1) : (groupExpression (op, cs)).depth = 1 := by
  rw [groupExpression_several h, Expression.depth_logical, depthAll_map_comparison]

theorem depth_groupExpression_le (group : Connective × List Comparison) :
    (groupExpression group).depth ≤ 1 := by
  obtain ⟨op, cs⟩ := group
  by_cases hone : cs.length = 1
  · obtain ⟨c, rfl⟩ := List.length_eq_one_iff.1 hone
    rw [groupExpression_single, Expression.depth]
    omega
  · exact Nat.le_of_eq (depth_groupExpression_of_ne hone)

theorem isRegular_groupExpression {group : Connective × List Comparison} (hne : group.2 ≠ [])
    (hvalues : ∀ c ∈ group.2, c.value ≠ .list []) : (groupExpression group).IsRegular := by
  obtain ⟨op, cs⟩ := group
  by_cases hone : cs.length = 1
  · obtain ⟨c, rfl⟩ := List.length_eq_one_iff.1 hone
    rw [groupExpression_single, Expression.IsRegular]
    exact hvalues c List.mem_cons_self
  · have hpos := List.length_pos_iff.2 hne
    rw [groupExpression_several hone, Expression.isRegular_logical, List.length_map]
    refine ⟨by simp only at hpos; omega, fun e he => ?_⟩
    obtain ⟨c, hc, rfl⟩ := List.mem_map.1 he
    rw [Expression.IsRegular]
    exact hvalues c hc

/-- The group is found again below another one, but for the connective of a single comparison. -/
theorem outlineGroup_groupExpression (outer : Connective) (group : Connective × List Comparison) :
    Expression.outlineGroup outer (groupExpression group) =
      if group.2.length = 1 then (outer.complement, group.2) else group := by
  obtain ⟨op, cs⟩ := group
  by_cases hone : cs.length = 1
  · obtain ⟨c, rfl⟩ := List.length_eq_one_iff.1 hone
    rfl
  · rw [groupExpression_several hone, if_neg hone, Expression.outlineGroup,
      comparisonsAll_map_comparison]

theorem outline_groupExpression_single {c : Comparison} :
    (groupExpression (op, [c])).outline = ⟨.or, [(.and, [c])]⟩ := rfl

theorem outline_groupExpression_several (h : cs.length ≠ 1) :
    (groupExpression (op, cs)).outline = ⟨op.complement, [(op, cs)]⟩ := by
  rw [groupExpression_several h, Expression.outline_flat (depthAll_map_comparison cs),
    comparisonsAll_map_comparison]

theorem text_group (op : Connective) (group : Connective × List Comparison) :
    text ⟨op, [group]⟩ = groupText group := rfl

theorem groupText_single {c : Comparison} : groupText (op, [c]) = c.text := by
  simp [groupText]

theorem text_groupExpression (group : Connective × List Comparison) :
    (groupExpression group).outline.text = groupText group := by
  obtain ⟨op, cs⟩ := group
  by_cases hone : cs.length = 1
  · obtain ⟨c, rfl⟩ := List.length_eq_one_iff.1 hone
    rw [outline_groupExpression_single, text_group, groupText_single, groupText_single]
  · rw [outline_groupExpression_several hone, text_group]

end Group

/-! ## The cases of the definition -/

variable {op : Connective} {group : Connective × List Comparison}
  {groups : List (Connective × List Comparison)} {o : Outline}

theorem expression_group : expression ⟨op, [group]⟩ = groupExpression group := rfl

theorem expression_comparisons (h : groups.length ≠ 1)
    (hall : ∀ group ∈ groups, group.2.length = 1) :
    expression ⟨op, groups⟩ = groupExpression (op, comparisons ⟨op, groups⟩) := by
  have hif : (groups.all fun group => group.2.length == 1) = true := by simpa using hall
  match groups, h with
  | [], _ => rfl
  | _ :: _ :: _, _ => exact if_pos hif

theorem expression_groups (h : groups.length ≠ 1) (hnot : ¬ ∀ group ∈ groups, group.2.length = 1) :
    expression ⟨op, groups⟩ = .logical op (groups.map groupExpression) := by
  have hif : ¬ (groups.all fun group => group.2.length == 1) = true := by simpa using hnot
  match groups, h with
  | [], _ => simp at hnot
  | _ :: _ :: _, _ => exact if_neg hif

theorem length_comparisons_of_single (op : Connective)
    (hall : ∀ group ∈ groups, group.2.length = 1) :
    (comparisons ⟨op, groups⟩).length = groups.length := by
  induction groups with
  | nil => rfl
  | cons group groups ih =>
    have htail := ih fun x hx => hall x (List.mem_cons_of_mem group hx)
    have hhead := hall group List.mem_cons_self
    simp only [comparisons, List.flatMap_cons, List.length_append, List.length_cons] at htail ⊢
    omega

theorem depthAll_groups_ne (hnot : ¬ ∀ group ∈ groups, group.2.length = 1) :
    Expression.depthAll (groups.map groupExpression) ≠ 0 := by
  obtain ⟨⟨op, cs⟩, hnot⟩ := Classical.not_forall.1 hnot
  obtain ⟨hmem, hone⟩ := Classical.not_imp.1 hnot
  have hle := Expression.depth_le_of_mem (List.mem_map_of_mem (f := groupExpression) hmem)
  rw [depth_groupExpression_of_ne hone] at hle
  omega

/-! ## The outline of what is read -/

theorem all_single_tree {leaf : Comparison → Leaf} :
    (∀ g ∈ groups.map fun group => (⟨group.1, group.2.map leaf⟩ : Group), g.leaves.length = 1) ↔
      ∀ group ∈ groups, group.2.length = 1 := by
  constructor
  · intro h group hgroup
    have hlength := h _ (List.mem_map_of_mem hgroup)
    rwa [List.length_map] at hlength
  · intro h g hg
    obtain ⟨group, hgroup, rfl⟩ := List.mem_map.1 hg
    rw [List.length_map]
    exact h group hgroup

/-- The tree of what the text of an outline is read as is the normal form of the tree of the
outline. -/
theorem tree_expression (o : Outline) (leaf : Comparison → Leaf) :
    o.expression.outline.tree leaf = (o.tree leaf).normalized := by
  obtain ⟨op, groups⟩ := o
  rcases layout_cases (fun group => group.2.length) groups with
    ⟨⟨inner, cs⟩, rfl⟩ | ⟨hone, hall⟩ | ⟨hone, hall⟩
  · rw [expression_group]
    by_cases hleaf : cs.length = 1
    · obtain ⟨c, rfl⟩ := List.length_eq_one_iff.1 hleaf
      rfl
    · have hleaves : (⟨inner, cs.map leaf⟩ : Group).leaves.length ≠ 1 := by
        rwa [List.length_map]
      rw [outline_groupExpression_several hleaf]
      exact (Tree.normalized_group hleaves).symm
  · -- one level on either side: the leaves come into a single group
    have hcomparisons : (comparisons ⟨op, groups⟩).length ≠ 1 := by
      rwa [length_comparisons_of_single op hall]
    have hleaves := leaves_tree ⟨op, groups⟩ leaf
    have hnormalized : (tree ⟨op, groups⟩ leaf).normalized =
        ⟨op.complement, [⟨op, (tree ⟨op, groups⟩ leaf).leaves⟩]⟩ :=
      Tree.normalized_leaves (by rwa [List.length_map]) (all_single_tree.2 hall)
    rw [expression_comparisons hone hall, outline_groupExpression_several hcomparisons, hnormalized,
      hleaves]
    rfl
  · -- two levels, in which only the connectives of single leaves are not read back
    have hnormalized : (tree ⟨op, groups⟩ leaf).normalized =
        ⟨op, (tree ⟨op, groups⟩ leaf).groups.map (Group.normalized op)⟩ :=
      Tree.normalized_groups (by rwa [List.length_map]) (mt all_single_tree.1 hall)
    rw [expression_groups hone hall, Expression.outline_nested (depthAll_groups_ne hall),
      hnormalized]
    simp only [tree, List.map_map]
    refine congrArg _ (List.map_congr_left fun group _ => ?_)
    simp only [Function.comp_apply, outlineGroup_groupExpression, Group.normalized, List.length_map]
    split <;> rfl

theorem groupText_groupExpression (outer : Connective) (group : Connective × List Comparison) :
    groupText (Expression.outlineGroup outer (groupExpression group)) = groupText group := by
  obtain ⟨op, cs⟩ := group
  rw [outlineGroup_groupExpression]
  split
  · rename_i hleaf
    obtain ⟨c, rfl⟩ := List.length_eq_one_iff.1 hleaf
    rw [groupText_single, groupText_single]
  · rfl

/-- What is read has the text that it was read from. -/
theorem text_expression (hne : o.groups ≠ []) : o.expression.outline.text = o.text := by
  obtain ⟨op, groups⟩ := o
  have hpos : 0 < groups.length := List.length_pos_iff.2 hne
  rcases layout_cases (fun group => group.2.length) groups with
    ⟨group, rfl⟩ | ⟨hone, hall⟩ | ⟨hone, hall⟩
  · rw [expression_group, text_groupExpression, text_group]
  · rw [expression_comparisons hone hall, text_groupExpression, text_several (by omega),
      if_pos (by simpa using hall)]
    rfl
  · have hlengths : ¬ ∀ group ∈ groups,
        (Expression.outlineGroup op (groupExpression group)).2.length = 1 := by
      intro h
      refine hall fun group hgroup => ?_
      have hlength := h group hgroup
      rw [outlineGroup_groupExpression] at hlength
      split at hlength <;> exact hlength
    rw [expression_groups hone hall, Expression.outline_nested (depthAll_groups_ne hall),
      text_several (by simp only [List.length_map]; omega), text_several (by omega),
      if_neg (by simpa using hlengths), if_neg (by simpa using hall), List.map_map, List.map_map]
    refine congrArg _ (List.map_congr_left fun group _ => ?_)
    rw [Function.comp_apply, Function.comp_apply, groupText_groupExpression]

/-! ## Reading -/

theorem isRegular_expression (h : o.IsWritten) : o.expression.IsRegular := by
  obtain ⟨op, groups⟩ := o
  have hpos : 0 < groups.length := List.length_pos_iff.2 h.groups
  rcases layout_cases (fun group => group.2.length) groups with
    ⟨group, rfl⟩ | ⟨hone, hall⟩ | ⟨hone, hall⟩
  · exact isRegular_groupExpression (h.comparisons group List.mem_cons_self)
      (h.values group List.mem_cons_self)
  · rw [expression_comparisons hone hall]
    refine isRegular_groupExpression ?_ fun c hc => ?_
    · rw [← length_comparisons_of_single op hall] at hpos
      exact List.length_pos_iff.1 hpos
    · obtain ⟨group, hgroup, hc⟩ := List.mem_flatMap.1 hc
      exact h.values group hgroup c hc
  · rw [expression_groups hone hall, Expression.isRegular_logical, List.length_map]
    refine ⟨by omega, fun e he => ?_⟩
    obtain ⟨group, hgroup, rfl⟩ := List.mem_map.1 he
    exact isRegular_groupExpression (h.comparisons group hgroup) (h.values group hgroup)

theorem depth_expression_le (o : Outline) : o.expression.depth ≤ maxDepth := by
  obtain ⟨op, groups⟩ := o
  rcases layout_cases (fun group => group.2.length) groups with
    ⟨group, rfl⟩ | ⟨hone, hall⟩ | ⟨hone, hall⟩
  · exact Nat.le_trans (depth_groupExpression_le group) (by decide)
  · rw [expression_comparisons hone hall]
    exact Nat.le_trans (depth_groupExpression_le _) (by decide)
  · have hparts : Expression.depthAll (groups.map groupExpression) ≤ 1 := by
      refine Expression.depthAll_le fun e he => ?_
      obtain ⟨group, -, rfl⟩ := List.mem_map.1 he
      exact depth_groupExpression_le group
    rw [expression_groups hone hall, Expression.depth_logical, maxDepth]
    omega

theorem comparisons_expression (o : Outline) : o.expression.comparisons = o.comparisons := by
  obtain ⟨op, groups⟩ := o
  rcases layout_cases (fun group => group.2.length) groups with
    ⟨group, rfl⟩ | ⟨hone, hall⟩ | ⟨hone, hall⟩
  · simp [expression_group, comparisons_groupExpression, comparisons]
  · rw [expression_comparisons hone hall, comparisons_groupExpression]
  · rw [expression_groups hone hall, Expression.comparisons, Expression.comparisonsAll_eq_flatMap,
      List.flatMap_map]
    simp only [comparisons_groupExpression]
    rfl

/-- The text of an outline is read, and as the expression that it was said to be read as. -/
theorem parse_written (h : o.IsWritten) : Expression.parse o.text = .ok o.expression := by
  have hspells := Expression.spells_outline (isRegular_expression h) (depth_expression_le o)
  rw [text_expression h.groups] at hspells
  exact Level.parse_of_spells hspells 0

end Outline

end Eligibility
