import Eligibility.Proofs.Outline

/-!
# Normal trees

Some connectives of a criteria tree do not matter: that of a root with a single group, and that of a
group with a single leaf. Groups of one leaf each may even stand as one group. A tree is normal if
these choices are made as compiling makes them, and `Tree.normalized` makes them so in any tree. It
keeps the leaves and the Boolean meaning, and changes exactly the trees that are not normal
(`Tree.normalized_eq_iff`).
-/

namespace Eligibility

/-- The group as it stands below the given connective: a single leaf is joined by the other one. -/
def Group.normalized (op : Connective) (g : Group) : Group :=
  if g.leaves.length = 1 then ⟨op.complement, g.leaves⟩ else g

/-- The normal tree with the same leaves and the same meaning. -/
def Tree.normalized (t : Tree) : Tree :=
  match t.groups with
  | [g] =>
    if g.leaves.length = 1 then ⟨.or, [⟨.and, g.leaves⟩]⟩ else ⟨g.operation.complement, [g]⟩
  | groups =>
    if groups.all fun g => g.leaves.length == 1 then
      ⟨t.operation.complement, [⟨t.operation, t.leaves⟩]⟩
    else ⟨t.operation, groups.map (Group.normalized t.operation)⟩

/-- The shapes in which every connective that does not matter is the one that compiling chooses. -/
inductive Tree.IsNormal : Tree → Prop where
  /-- A single leaf is in an `AND` group below `OR`. -/
  | leaf (l : Leaf) : IsNormal ⟨.or, [⟨.and, [l]⟩]⟩
  /-- A single group of several leaves is below the other connective. -/
  | group {op : Connective} {g : Group} (hleaves : 2 ≤ g.leaves.length)
      (hop : g.operation = op.complement) : IsNormal ⟨op, [g]⟩
  /-- Of several groups one has several leaves, and those of one leaf have the other connective. -/
  | groups {op : Connective} {gs : List Group} (hgroups : 2 ≤ gs.length)
      (hmany : ∃ g ∈ gs, 2 ≤ g.leaves.length)
      (hsingle : ∀ g ∈ gs, g.leaves.length = 1 → g.operation = op.complement) : IsNormal ⟨op, gs⟩

/-- The tree with a change made to every leaf. -/
def Tree.mapLeaves (f : Leaf → Leaf) (t : Tree) : Tree :=
  ⟨t.operation, t.groups.map fun g => ⟨g.operation, g.leaves.map f⟩⟩

/-- The three layouts: a single part, several parts of size one each, and all others. -/
theorem layout_cases {α : Type} (size : α → Nat) (parts : List α) :
    (∃ part, parts = [part]) ∨ (parts.length ≠ 1 ∧ ∀ part ∈ parts, size part = 1) ∨
      (parts.length ≠ 1 ∧ ¬ ∀ part ∈ parts, size part = 1) := by
  by_cases hone : parts.length = 1
  · exact .inl (List.length_eq_one_iff.1 hone)
  · by_cases hall : ∀ part ∈ parts, size part = 1
    · exact .inr (.inl ⟨hone, hall⟩)
    · exact .inr (.inr ⟨hone, hall⟩)

/-! ## Groups -/

namespace Group

variable {op : Connective} {g : Group}

theorem normalized_of_single (h : g.leaves.length = 1) :
    g.normalized op = ⟨op.complement, g.leaves⟩ :=
  if_pos h

theorem normalized_of_ne (h : g.leaves.length ≠ 1) : g.normalized op = g :=
  if_neg h

theorem leaves_normalized (op : Connective) (g : Group) : (g.normalized op).leaves = g.leaves := by
  unfold normalized
  split <;> rfl

theorem eval_of_single {truth : Leaf → Bool} {l : Leaf} (h : g.leaves = [l]) :
    g.eval truth = truth l := by
  rw [eval, h]
  exact Connective.combine_single g.operation (truth l)

theorem eval_normalized (truth : Leaf → Bool) (op : Connective) (g : Group) :
    (g.normalized op).eval truth = g.eval truth := by
  by_cases h : g.leaves.length = 1
  · obtain ⟨l, hl⟩ := List.length_eq_one_iff.1 h
    have hleaves : (g.normalized op).leaves = [l] := by rw [leaves_normalized, hl]
    rw [eval_of_single hleaves, eval_of_single hl]
  · rw [normalized_of_ne h]

theorem normalized_eq_iff :
    g.normalized op = g ↔ (g.leaves.length = 1 → g.operation = op.complement) := by
  by_cases h : g.leaves.length = 1
  · rw [normalized_of_single h]
    constructor
    · intro heq _
      exact (congrArg operation heq).symm
    · intro hop
      rw [← hop h]
  · rw [normalized_of_ne h]
    simp [h]

end Group

namespace Tree

variable {op : Connective} {g : Group} {gs : List Group} {t : Tree}

/-! ## The cases of the definition -/

theorem normalized_leaf (h : g.leaves.length = 1) :
    normalized ⟨op, [g]⟩ = ⟨.or, [⟨.and, g.leaves⟩]⟩ :=
  if_pos h

theorem normalized_group (h : g.leaves.length ≠ 1) :
    normalized ⟨op, [g]⟩ = ⟨g.operation.complement, [g]⟩ :=
  if_neg h

theorem normalized_several (h : gs.length ≠ 1) :
    normalized ⟨op, gs⟩ =
      if gs.all fun g => g.leaves.length == 1 then ⟨op.complement, [⟨op, leaves ⟨op, gs⟩⟩]⟩
      else ⟨op, gs.map (Group.normalized op)⟩ := by
  match gs, h with
  | [], _ => rfl
  | _ :: _ :: _, _ => rfl

theorem normalized_leaves (h : gs.length ≠ 1) (hall : ∀ g ∈ gs, g.leaves.length = 1) :
    normalized ⟨op, gs⟩ = ⟨op.complement, [⟨op, leaves ⟨op, gs⟩⟩]⟩ := by
  rw [normalized_several h, if_pos (by simpa using hall)]

theorem normalized_groups (h : gs.length ≠ 1) (hnot : ¬ ∀ g ∈ gs, g.leaves.length = 1) :
    normalized ⟨op, gs⟩ = ⟨op, gs.map (Group.normalized op)⟩ := by
  rw [normalized_several h, if_neg (by simpa using hnot)]

/-! ## What is kept -/

theorem leaves_normalized (t : Tree) : t.normalized.leaves = t.leaves := by
  obtain ⟨op, gs⟩ := t
  rcases layout_cases (fun g => g.leaves.length) gs with ⟨g, rfl⟩ | ⟨hone, hall⟩ | ⟨hone, hall⟩
  · by_cases hleaf : g.leaves.length = 1
    · simp [normalized_leaf hleaf, leaves]
    · simp [normalized_group hleaf, leaves]
  · simp [normalized_leaves hone hall, leaves]
  · simp [normalized_groups hone hall, leaves, List.flatMap_map, Group.leaves_normalized]

theorem map_eval_of_single (truth : Leaf → Bool) (hall : ∀ g ∈ gs, g.leaves.length = 1) :
    gs.map (Group.eval truth) = (gs.flatMap Group.leaves).map truth := by
  induction gs with
  | nil => rfl
  | cons g gs ih =>
    obtain ⟨l, hl⟩ := List.length_eq_one_iff.1 (hall g List.mem_cons_self)
    have htail := ih fun x hx => hall x (List.mem_cons_of_mem g hx)
    simp [htail, hl, Group.eval_of_single hl]

theorem eval_normalized (truth : Leaf → Bool) (t : Tree) :
    t.normalized.eval truth = t.eval truth := by
  obtain ⟨op, gs⟩ := t
  rcases layout_cases (fun g => g.leaves.length) gs with ⟨g, rfl⟩ | ⟨hone, hall⟩ | ⟨hone, hall⟩
  · by_cases hleaf : g.leaves.length = 1
    · obtain ⟨l, hl⟩ := List.length_eq_one_iff.1 hleaf
      simp [normalized_leaf hleaf, hl, eval, Group.eval, Connective.combine_single]
    · simp [normalized_group hleaf, eval, Connective.combine_single]
  · have hgroups := map_eval_of_single truth hall
    simp [normalized_leaves hone hall, eval, Group.eval, leaves, hgroups, Connective.combine_single]
  · rw [normalized_groups hone hall]
    simp [eval, Function.comp_def, Group.eval_normalized]

/-! ## What is changed -/

theorem IsNormal.normalized_eq (h : t.IsNormal) : t.normalized = t := by
  cases h with
  | leaf l => rfl
  | @group op g hleaves hop =>
    rw [normalized_group (by omega), hop, Connective.complement_complement]
  | @groups op gs hgroups hmany hsingle =>
    obtain ⟨g, hg, hlength⟩ := hmany
    have hnot : ¬ ∀ g ∈ gs, g.leaves.length = 1 := by
      intro hall
      have hone := hall g hg
      omega
    have hid : gs.map (Group.normalized op) = gs.map id :=
      List.map_congr_left fun g hg => Group.normalized_eq_iff.2 (hsingle g hg)
    rw [normalized_groups (by omega) hnot, hid, List.map_id]

/-- A tree without empty groups is normal if normalizing leaves it as it is. -/
theorem isNormal_of_normalized_eq (hne : t.groups ≠ []) (hleaves : ∀ g ∈ t.groups, g.leaves ≠ [])
    (h : t.normalized = t) : t.IsNormal := by
  obtain ⟨op, gs⟩ := t
  have hpos : 0 < gs.length := List.length_pos_iff.2 hne
  rcases layout_cases (fun g => g.leaves.length) gs with ⟨g, rfl⟩ | ⟨hone, hall⟩ | ⟨hone, hall⟩
  · by_cases hleaf : g.leaves.length = 1
    · obtain ⟨l, hl⟩ := List.length_eq_one_iff.1 hleaf
      rw [normalized_leaf hleaf, hl] at h
      rw [← h]
      exact .leaf l
    · rw [normalized_group hleaf] at h
      obtain rfl : g.operation.complement = op := congrArg operation h
      have hleaves := List.length_pos_iff.2 (hleaves g List.mem_cons_self)
      exact .group (by omega) (Connective.complement_complement _).symm
  · -- the leaves would come into a single group
    rw [normalized_leaves hone hall] at h
    have hlength := congrArg (fun t : Tree => t.groups.length) h
    simp only [List.length_singleton] at hlength
    omega
  · rw [normalized_groups hone hall] at h
    have hsame : gs.map (Group.normalized op) = gs.map id := by
      rw [List.map_id]
      exact congrArg groups h
    refine .groups (by omega) ?_ fun g hg => ?_
    · obtain ⟨g, hnot⟩ := Classical.not_forall.1 hall
      obtain ⟨hg, hlength⟩ := Classical.not_imp.1 hnot
      have hleaves := List.length_pos_iff.2 (hleaves g hg)
      exact ⟨g, hg, by omega⟩
    · exact Group.normalized_eq_iff.1 (List.map_inj_left.1 hsame g hg)

/-- A tree without empty groups is changed exactly if it is not normal. -/
theorem normalized_eq_iff (hne : t.groups ≠ []) (hleaves : ∀ g ∈ t.groups, g.leaves ≠ []) :
    t.normalized = t ↔ t.IsNormal :=
  ⟨isNormal_of_normalized_eq hne hleaves, IsNormal.normalized_eq⟩

/-! ## Changing leaves -/

theorem leaves_mapLeaves (f : Leaf → Leaf) (t : Tree) :
    (t.mapLeaves f).leaves = t.leaves.map f := by
  simp [mapLeaves, leaves, List.flatMap_map, List.map_flatMap]

theorem mapLeaves_eq_self {f : Leaf → Leaf} (h : ∀ l ∈ t.leaves, f l = l) : t.mapLeaves f = t := by
  obtain ⟨op, gs⟩ := t
  have hgroups : ∀ g ∈ gs, (⟨g.operation, g.leaves.map f⟩ : Group) = g := by
    intro g hg
    have hleaves : g.leaves.map f = g.leaves := by
      have hid := List.map_congr_left (g := id) fun l hl => h l (List.mem_flatMap.2 ⟨g, hg, hl⟩)
      simpa using hid
    rw [hleaves]
  have hid := List.map_congr_left (g := id) hgroups
  simpa [mapLeaves] using hid

end Tree

end Eligibility
