import Eligibility.Tree.Render
import Eligibility.Proofs.Mapping
import Eligibility.Proofs.Printing
import Eligibility.Proofs.Runs

/-!
# The layout of rendered trees

Rendering a tree is writing the outline in which its leaves are replaced by the comparisons that
they state (`Outline.render_tree`). The text of the outline of an expression is one of the spellings
of the expression (`Expression.spells_outline`), so it is read as the expression: the groups are the
ones of the expression, and a comparison among them only gets parentheses of its own.
-/

namespace Eligibility

variable {σ : Type}

/-- The text of a group of comparisons. -/
def Outline.groupText (group : Connective × List Comparison) : String :=
  group.1.separator.intercalate (group.2.map Comparison.text)

/-- The text of an outline, laid out like that of a tree. -/
def Outline.text (o : Outline) : String :=
  match o.groups with
  | [] => ""
  | [group] => groupText group
  | groups =>
    if groups.all fun group => group.2.length == 1 then
      o.operation.separator.intercalate ((groups.flatMap (·.2)).map Comparison.text)
    else o.operation.separator.intercalate (groups.map fun group => "(" ++ groupText group ++ ")")

/-! ## Rendering -/

section Rendering

variable {α : Type} {resolver : Resolver σ} {leaf : α → Leaf} {stated : α → Comparison}

theorem Group.leafTexts_eq_ok {xs : List α}
    (h : ∀ x ∈ xs, ∀ s, (leaf x).comparison resolver s = .ok (stated x) s) (s : σ) :
    leafTexts resolver (xs.map leaf) s = .ok ((xs.map stated).map Comparison.text) s := by
  induction xs with
  | nil => rfl
  | cons x xs ih =>
    have htail := ih fun y hy => h y (List.mem_cons_of_mem x hy)
    refine bind_eq_ok.2 ⟨stated x, s, h x List.mem_cons_self s, ?_⟩
    exact bind_eq_ok.2 ⟨_, s, htail, rfl⟩

theorem Group.render_eq_ok (op : Connective) {xs : List α} (hne : xs ≠ [])
    (h : ∀ x ∈ xs, ∀ s, (leaf x).comparison resolver s = .ok (stated x) s) (s : σ) :
    Group.render resolver ⟨op, xs.map leaf⟩ s = .ok (Outline.groupText (op, xs.map stated)) s := by
  unfold render
  rw [if_neg (by simpa using hne)]
  exact bind_eq_ok.2 ⟨_, s, leafTexts_eq_ok h s, rfl⟩

theorem Tree.groupTexts_eq_ok {groups : List (Connective × List α)}
    (hne : ∀ group ∈ groups, group.2 ≠ [])
    (h : ∀ group ∈ groups, ∀ x ∈ group.2, ∀ s, (leaf x).comparison resolver s = .ok (stated x) s)
    (s : σ) :
    groupTexts resolver (groups.map fun group => ⟨group.1, group.2.map leaf⟩) s =
      .ok (groups.map fun group =>
        "(" ++ Outline.groupText (group.1, group.2.map stated) ++ ")") s := by
  induction groups with
  | nil => rfl
  | cons group groups ih =>
    have htail := ih (fun x hx => hne x (List.mem_cons_of_mem group hx))
      fun x hx => h x (List.mem_cons_of_mem group hx)
    have hhead := Group.render_eq_ok group.1 (hne group List.mem_cons_self)
      (h group List.mem_cons_self) s
    refine bind_eq_ok.2 ⟨_, s, hhead, ?_⟩
    exact bind_eq_ok.2 ⟨_, s, htail, rfl⟩

/-- Several groups, each in parentheses or of one leaf. -/
theorem Tree.render_several {op : Connective} {groups : List Group} (h : 2 ≤ groups.length) :
    render resolver ⟨op, groups⟩ =
      if groups.all fun group => group.leaves.length == 1 then do
        let texts ← Group.leafTexts resolver (groups.flatMap Group.leaves)
        return op.separator.intercalate texts
      else do
        let texts ← groupTexts resolver groups
        return op.separator.intercalate texts := by
  match groups, h with
  | _ :: _ :: _, _ => rfl

theorem Outline.text_several {op : Connective} {groups : List (Connective × List Comparison)}
    (h : 2 ≤ groups.length) :
    text ⟨op, groups⟩ =
      if groups.all fun group => group.2.length == 1 then
        op.separator.intercalate ((groups.flatMap (·.2)).map Comparison.text)
      else op.separator.intercalate (groups.map fun group => "(" ++ groupText group ++ ")") := by
  match groups, h with
  | _ :: _ :: _, _ => rfl

/-- A tree whose leaves state comparisons is rendered like the outline with these comparisons. -/
theorem Tree.render_eq_ok (op : Connective) {groups : List (Connective × List α)}
    (hne : ∀ group ∈ groups, group.2 ≠ [])
    (h : ∀ group ∈ groups, ∀ x ∈ group.2, ∀ s, (leaf x).comparison resolver s = .ok (stated x) s)
    (s : σ) :
    render resolver ⟨op, groups.map fun group => ⟨group.1, group.2.map leaf⟩⟩ s =
      .ok (Outline.text ⟨op, groups.map fun group => (group.1, group.2.map stated)⟩) s := by
  by_cases hseveral : 2 ≤ groups.length
  · rw [render_several (by simpa using hseveral), Outline.text_several (by simpa using hseveral),
      List.all_map, List.all_map]
    simp only [Function.comp_def, List.length_map]
    split
    · have hall : ∀ x ∈ groups.flatMap (·.2), ∀ s,
          (leaf x).comparison resolver s = .ok (stated x) s := by
        intro x hx
        obtain ⟨group, hgroup, hx⟩ := List.mem_flatMap.1 hx
        exact h group hgroup x hx
      have hleaves := Group.leafTexts_eq_ok hall s
      rw [List.flatMap_map, List.flatMap_map, ← List.map_flatMap, ← List.map_flatMap]
      exact bind_eq_ok.2 ⟨_, s, hleaves, rfl⟩
    · have htexts := groupTexts_eq_ok hne h s
      rw [List.map_map]
      exact bind_eq_ok.2 ⟨_, s, htexts, rfl⟩
  · match groups, hne, h, hseveral with
    | [], _, _, _ => rfl
    | [group], hne, h, _ =>
      exact Group.render_eq_ok group.1 (hne group List.mem_cons_self) (h group List.mem_cons_self) s
    | _ :: _ :: _, _, _, hseveral => simp at hseveral

/-- The tree of an outline is rendered like the outline. -/
theorem Outline.render_tree {leaf : Comparison → Leaf} {stated : Comparison → Comparison}
    {o : Outline} (hne : ∀ group ∈ o.groups, group.2 ≠ [])
    (h : ∀ c ∈ o.comparisons, ∀ s, (leaf c).comparison resolver s = .ok (stated c) s) (s : σ) :
    (o.tree leaf).render resolver s = .ok (o.map stated).text s :=
  Tree.render_eq_ok o.operation hne
    (fun group hgroup c hc => h c (List.mem_flatMap.2 ⟨group, hgroup, hc⟩)) s

end Rendering

/-! ## Reading back -/

namespace Expression

mutual

/-- A regular expression has a comparison. -/
theorem length_comparisons_pos : ∀ {e : Expression}, e.IsRegular → 0 < e.comparisons.length
  | .comparison _, _ => by simp [comparisons]
  | .logical _ children, h => by
    rw [IsRegular] at h
    have hlength := length_le_comparisonsAll h.2
    rw [comparisons]
    omega

theorem length_le_comparisonsAll : ∀ {es : List Expression}, AllRegular es →
    es.length ≤ (comparisonsAll es).length
  | [], _ => by simp
  | e :: es, h => by
    rw [AllRegular] at h
    have hhead := length_comparisons_pos h.1
    have htail := length_le_comparisonsAll h.2
    simp only [comparisonsAll, List.length_append, List.length_cons]
    omega

end

/-- No group of a regular expression is empty. -/
theorem ne_nil_of_mem_outline {e : Expression} (h : e.IsRegular)
    {group : Connective × List Comparison} (hgroup : group ∈ e.outline.groups) : group.2 ≠ [] := by
  cases e with
  | comparison c =>
    obtain rfl : group = (.and, [c]) := by simpa [outline] using hgroup
    simp
  | logical op children =>
    have hpos := length_comparisons_pos h
    rw [comparisons] at hpos
    by_cases hflat : depthAll children = 0
    · rw [outline_flat hflat, List.mem_singleton] at hgroup
      rw [hgroup]
      exact List.length_pos_iff.1 hpos
    · rw [outline_nested hflat] at hgroup
      obtain ⟨e, he, rfl⟩ := List.mem_map.1 hgroup
      rw [comparisons_outlineGroup]
      exact List.length_pos_iff.1 (length_comparisons_pos ((isRegular_logical.1 h).2 e he))

/-- Comparisons under one connective are written without parentheses. -/
theorem operandTexts_of_flat {es : List Expression} (h : depthAll es = 0) :
    operandTexts es = (comparisonsAll es).map Comparison.text := by
  induction es with
  | nil => simp [operandTexts, comparisonsAll]
  | cons e es ih =>
    rw [depthAll_cons] at h
    obtain ⟨c, rfl⟩ := eq_comparison_of_depth (e := e) (by omega)
    simp [operandTexts, operandText, comparisonsAll, comparisons, ih (by omega)]

/-- The text of a group spells the part of the expression that it stands for. -/
theorem spells_groupText (op : Connective) {e : Expression} (h : e.IsRegular)
    (hdepth : e.depth ≤ 1) : Spells e (Outline.groupText (outlineGroup op e)).toList := by
  cases e with
  | comparison c =>
    rw [IsRegular] at h
    simpa [Outline.groupText, outlineGroup] using
      Spells.operand allBlank_nil (.comparison (spellsComparison_text h)) allBlank_nil
  | logical inner children =>
    rw [IsRegular] at h
    rw [depth_logical] at hdepth
    have hspells := spells_logical inner children h
    rwa [operandTexts_of_flat (by omega)] at hspells

/-- Among the parts of an expression with two levels there is one with several comparisons. -/
theorem not_all_single {op : Connective} {children : List Expression}
    (h : ∀ e ∈ children, e.IsRegular) (hnested : depthAll children ≠ 0) :
    ((children.map (outlineGroup op)).all fun group => group.2.length == 1) = false := by
  induction children with
  | nil => simp [depthAll] at hnested
  | cons e children ih =>
    rw [depthAll_cons] at hnested
    cases e with
    | comparison c =>
      have htail := ih (fun x hx => h x (List.mem_cons_of_mem _ hx))
        (by simpa [depth] using hnested)
      simp [htail]
    | logical inner parts =>
      have hregular := h _ List.mem_cons_self
      rw [IsRegular] at hregular
      have hlength := length_le_comparisonsAll hregular.2
      have hmany : (comparisonsAll parts).length ≠ 1 := by omega
      simp [outlineGroup, hmany]

/-- The text of the outline of an expression is one of its spellings. -/
theorem spells_outline {e : Expression} (h : e.IsRegular) (hdepth : e.depth ≤ maxDepth) :
    Spells e e.outline.text.toList := by
  cases e with
  | comparison c => exact spells_groupText .or h (by simp [depth])
  | logical op children =>
    rw [depth_logical, maxDepth] at hdepth
    by_cases hflat : depthAll children = 0
    · rw [outline_flat hflat]
      exact spells_groupText op h (by rw [depth_logical]; omega)
    · obtain ⟨hlength, hchildren⟩ := isRegular_logical.1 h
      have hne : children ≠ [] := List.length_pos_iff.1 (by omega)
      have hoperands : ∀ e ∈ children, ∃ closed, SpellsOperand e closed
          ("(" ++ Outline.groupText (outlineGroup op e) ++ ")").toList := by
        intro e he
        have hshallow := depth_le_of_mem he
        have hinside := spells_groupText op (hchildren e he) (by omega)
        exact ⟨true, by simpa using SpellsOperand.group hinside⟩
      have hsequence := spellsSequence_intercalate op hne hoperands
      rw [outline_nested hflat, Outline.text_several (by simpa using hlength),
        not_all_single hchildren hflat, if_neg Bool.false_ne_true, List.map_map]
      have hspells := Spells.logical hlength allBlank_nil hsequence allBlank_nil
      rw [List.nil_append, List.append_nil] at hspells
      exact hspells

end Expression

end Eligibility
