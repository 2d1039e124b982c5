import Eligibility.Proofs.Compilation
import Eligibility.Proofs.Rereading

/-!
# What rendering a tree yields

A tree that is rendered has a leaf in every group, a value in every list, and for every leaf of an
account or an entitlement a source that can be named. The text is then that of the outline in which
the leaves are replaced by the comparisons that they state (`Tree.eq_text_of_render`). This holds
for every resolver whose answers depend on the id alone.
-/

namespace Eligibility

variable {σ : Type}

/-! ## Leaves -/

/-- The comparison that a leaf states when ids have the given names. -/
def Leaf.stated (answer : String → Except LookupError String) (l : Leaf) : Comparison :=
  { operator := l.operator
    subject :=
      { scope := l.key.kind.scope ((l.key.sourceId.bind fun id => (answer id).toOption).getD "")
        property := l.key.attributeName }
    value := l.value }

/-- The leaf can be written: its source, if it needs one, has a name, and its list of values, if it
has one, has a value. -/
structure Leaf.IsStated (answer : String → Except LookupError String) (l : Leaf) : Prop where
  /-- The source has a name. -/
  named : l.key.kind ≠ .identity → ∃ id name, l.key.sourceId = some id ∧ answer id = .ok name
  /-- The list of values is not empty. -/
  value : l.value ≠ .list []

/-- A leaf that is stated is one of the identity, or its source has a name that is written. -/
theorem Leaf.IsStated.scope_cases {answer : String → Except LookupError String} {l : Leaf}
    (h : l.IsStated answer) :
    (l.key.kind = .identity ∧ (l.stated answer).subject.scope = .identity) ∨
      ∃ id name, l.key.kind ≠ .identity ∧ l.key.sourceId = some id ∧ answer id = .ok name ∧
        (l.stated answer).subject.scope = l.key.kind.scope name := by
  by_cases hkind : l.key.kind = .identity
  · refine .inl ⟨hkind, ?_⟩
    simp [stated, hkind, KeyKind.scope]
  · obtain ⟨id, name, hid, hname⟩ := h.named hkind
    refine .inr ⟨id, name, hkind, hid, hname, ?_⟩
    simp [stated, hid, hname, Except.toOption]

theorem Leaf.stated_congr {answer answer' : String → Except LookupError String} {l : Leaf}
    (h : l.key.kind ≠ .identity → ∀ id, l.key.sourceId = some id → answer id = answer' id) :
    l.stated answer = l.stated answer' := by
  obtain ⟨operation, ⟨kind, property, sourceId⟩, value⟩ := l
  cases sourceId with
  | none => rfl
  | some id =>
    cases kind with
    | identity => rfl
    | account => simp [stated, h (by simp) id rfl]
    | entitlement => simp [stated, h (by simp) id rfl]

/-- The outline of a tree, where every leaf states the given comparison. -/
def Tree.outline (stated : Leaf → Comparison) (t : Tree) : Outline :=
  ⟨t.operation, t.groups.map fun g => (g.operation, g.leaves.map stated)⟩

theorem Tree.comparisons_outline (stated : Leaf → Comparison) (t : Tree) :
    (t.outline stated).comparisons = t.leaves.map stated := by
  simp [outline, Outline.comparisons, leaves, List.flatMap_map, List.map_flatMap]

theorem Tree.outline_congr {stated stated' : Leaf → Comparison} {t : Tree}
    (h : ∀ l ∈ t.leaves, stated l = stated' l) : t.outline stated = t.outline stated' := by
  unfold outline
  congr 1
  refine List.map_congr_left fun g hg => ?_
  congr 1
  exact List.map_congr_left fun l hl => h l (List.mem_flatMap.2 ⟨g, hg, hl⟩)

theorem Tree.text_outline_several (stated : Leaf → Comparison) {op : Connective} {gs : List Group}
    (h : 2 ≤ gs.length) :
    (outline stated ⟨op, gs⟩).text =
      if gs.all fun g => g.leaves.length == 1 then
        op.separator.intercalate (((gs.flatMap Group.leaves).map stated).map Comparison.text)
      else
        op.separator.intercalate (gs.map fun g =>
          "(" ++ Outline.groupText (g.operation, g.leaves.map stated) ++ ")") := by
  have hlengths : (gs.map fun g => (g.operation, g.leaves.map stated)).all
      (fun group => group.2.length == 1) = gs.all fun g => g.leaves.length == 1 := by
    simp [List.all_map, Function.comp_def]
  have hcomparisons := comparisons_outline stated ⟨op, gs⟩
  simp only [outline, Outline.comparisons, leaves] at hcomparisons
  rw [outline, Outline.text_several (by simpa using h), hlengths, hcomparisons]
  simp only [List.map_map, Function.comp_def]

section

variable {resolver : Resolver σ} {answer : String → Except LookupError String}
  (hanswer : resolver.Answers answer)

include hanswer

theorem Leaf.eq_stated_of_scope {l : Leaf} {scope : Scope} {s s' : σ}
    (h : l.scope resolver s = .ok scope s') :
    scope = (l.stated answer).subject.scope ∧
      (l.key.kind ≠ .identity → ∃ id name, l.key.sourceId = some id ∧ answer id = .ok name) := by
  unfold Leaf.scope at h
  split at h
  · rename_i hkind
    cases h
    simp [stated, hkind, KeyKind.scope]
  · cases hid : l.key.sourceId with
    | none =>
      rw [hid] at h
      cases h
    | some id =>
      rw [hid] at h
      obtain ⟨name, u, hask, h⟩ := bind_eq_ok.1 h
      cases h
      have hname := hanswer.eq_ok_of_ask hask
      exact ⟨by simp [stated, hid, hname, Except.toOption], fun _ => ⟨id, name, rfl, hname⟩⟩

theorem Leaf.eq_stated_of_comparison {l : Leaf} {c : Comparison} {s s' : σ}
    (h : l.comparison resolver s = .ok c s') : c = l.stated answer ∧ l.IsStated answer := by
  unfold Leaf.comparison at h
  obtain ⟨scope, u, hscope, h⟩ := bind_eq_ok.1 h
  obtain ⟨rfl, hnamed⟩ := eq_stated_of_scope hanswer hscope
  split at h
  · cases h
  · rename_i hvalue
    cases h
    exact ⟨rfl, hnamed, hvalue⟩

/-! ## Groups -/

omit hanswer in
theorem Group.leafTexts_eq_mapM (ls : List Leaf) :
    leafTexts resolver ls = ls.mapM fun l => do
      let comparison ← l.comparison resolver
      return comparison.text := by
  induction ls with
  | nil => rfl
  | cons l ls ih => simp [leafTexts, ih]

omit hanswer in
theorem Tree.groupTexts_eq_mapM (gs : List Group) :
    groupTexts resolver gs = gs.mapM fun g => do
      let text ← g.render resolver
      return "(" ++ text ++ ")" := by
  induction gs with
  | nil => rfl
  | cons g gs ih => simp [groupTexts, ih]

theorem Group.eq_texts_of_leafTexts {ls : List Leaf} {texts : List String} {s s' : σ}
    (h : leafTexts resolver ls s = .ok texts s') :
    texts = (ls.map (Leaf.stated answer)).map Comparison.text ∧ ∀ l ∈ ls, l.IsStated answer := by
  rw [leafTexts_eq_mapM] at h
  have hleaf : ∀ (l : Leaf) (s : σ) (text : String) (s' : σ),
      (do let comparison ← l.comparison resolver; return comparison.text : Criteria σ String) s =
        .ok text s' →
      text = (l.stated answer).text ∧ l.IsStated answer := by
    intro l s text s' hrun
    obtain ⟨c, u, hcomparison, hrun⟩ := bind_eq_ok.1 hrun
    cases hrun
    obtain ⟨rfl, hstated⟩ := Leaf.eq_stated_of_comparison hanswer hcomparison
    exact ⟨rfl, hstated⟩
  obtain ⟨rfl, hstated⟩ := eq_map_of_mapM hleaf h
  exact ⟨by rw [List.map_map]; rfl, hstated⟩

theorem Group.eq_text_of_render {g : Group} {text : String} {s s' : σ}
    (h : g.render resolver s = .ok text s') :
    text = Outline.groupText (g.operation, g.leaves.map (Leaf.stated answer)) ∧ g.leaves ≠ [] ∧
      ∀ l ∈ g.leaves, l.IsStated answer := by
  unfold render at h
  split at h
  · cases h
  · rename_i hne
    obtain ⟨texts, u, htexts, h⟩ := bind_eq_ok.1 h
    cases h
    obtain ⟨rfl, hstated⟩ := eq_texts_of_leafTexts hanswer htexts
    exact ⟨rfl, hne, hstated⟩

theorem Tree.eq_texts_of_groupTexts {gs : List Group} {texts : List String} {s s' : σ}
    (h : groupTexts resolver gs s = .ok texts s') :
    texts = gs.map (fun g =>
        "(" ++ Outline.groupText (g.operation, g.leaves.map (Leaf.stated answer)) ++ ")") ∧
      ∀ g ∈ gs, g.leaves ≠ [] ∧ ∀ l ∈ g.leaves, l.IsStated answer := by
  rw [groupTexts_eq_mapM] at h
  refine eq_map_of_mapM (fun g s text s' hrun => ?_) h
  obtain ⟨inside, u, hrender, hrun⟩ := bind_eq_ok.1 hrun
  cases hrun
  obtain ⟨rfl, hgroup⟩ := Group.eq_text_of_render hanswer hrender
  exact ⟨rfl, hgroup⟩

/-! ## Trees -/

/-- What is known of a tree that is rendered. -/
theorem Tree.eq_text_of_render {t : Tree} {text : String} {s s' : σ}
    (h : t.render resolver s = .ok text s') :
    text = (t.outline (Leaf.stated answer)).text ∧
      ∀ g ∈ t.groups, g.leaves ≠ [] ∧ ∀ l ∈ g.leaves, l.IsStated answer := by
  obtain ⟨op, gs⟩ := t
  by_cases hseveral : 2 ≤ gs.length
  · rw [render_several hseveral] at h
    rw [text_outline_several _ hseveral]
    split at h
    · rename_i hall
      obtain ⟨texts, u, htexts, h⟩ := bind_eq_ok.1 h
      cases h
      obtain ⟨rfl, hstated⟩ := Group.eq_texts_of_leafTexts hanswer htexts
      rw [if_pos hall]
      refine ⟨rfl, fun g hg => ⟨?_, fun l hl => hstated l (List.mem_flatMap.2 ⟨g, hg, hl⟩)⟩⟩
      have hlength := List.all_eq_true.1 hall g hg
      rintro hnil
      simp [hnil] at hlength
    · rename_i hnot
      obtain ⟨texts, u, htexts, h⟩ := bind_eq_ok.1 h
      cases h
      obtain ⟨rfl, hgroups⟩ := eq_texts_of_groupTexts hanswer htexts
      rw [if_neg hnot]
      exact ⟨rfl, hgroups⟩
  · match gs, h with
    | [], h =>
      cases h
      exact ⟨rfl, by simp⟩
    | [g], h =>
      obtain ⟨rfl, hgroup⟩ := Group.eq_text_of_render hanswer h
      exact ⟨rfl, by simpa using hgroup⟩
    | _ :: _ :: _, _ => simp at hseveral

end

/-! ## Trees that can be rendered -/

section

variable {answer : String → Except LookupError String}

theorem Leaf.comparison_eq_ok {l : Leaf} (h : l.IsStated answer) (s : σ) :
    l.comparison (.ofFunction answer) s = .ok (l.stated answer) s := by
  have hscope : l.scope (.ofFunction answer) s = .ok (l.stated answer).subject.scope s := by
    unfold Leaf.scope
    rcases h.scope_cases with ⟨hkind, hscope⟩ | ⟨id, name, hkind, hid, hname, hscope⟩
    · rw [if_pos hkind, hscope]
      rfl
    · have hask : (Resolver.ofFunction answer).ask id s = .ok name s :=
        Resolver.ask_ok (by simp [Resolver.ofFunction, hname])
      rw [if_neg hkind, hid, hscope]
      exact bind_eq_ok.2 ⟨name, s, hask, rfl⟩
  refine bind_eq_ok.2 ⟨_, s, hscope, ?_⟩
  rw [if_neg h.value]
  rfl

/-- A tree is rendered exactly if no group is empty and all leaves can be written. -/
theorem Tree.render_eq_ok_iff {t : Tree} {text : String} {s s' : σ} :
    t.render (.ofFunction answer) s = .ok text s' ↔
      text = (t.outline (Leaf.stated answer)).text ∧ s' = s ∧
        ∀ g ∈ t.groups, g.leaves ≠ [] ∧ ∀ l ∈ g.leaves, l.IsStated answer := by
  have hrender (h : ∀ g ∈ t.groups, g.leaves ≠ [] ∧ ∀ l ∈ g.leaves, l.IsStated answer) :
      t.render (.ofFunction answer) s = .ok (t.outline (Leaf.stated answer)).text s := by
    have hcomparisons : ∀ group ∈ t.groups.map fun g => (g.operation, g.leaves),
        ∀ l ∈ group.2, ∀ s : σ,
          (id l).comparison (.ofFunction answer) s = .ok (l.stated answer) s := by
      intro group hgroup l hl s
      obtain ⟨g, hg, rfl⟩ := List.mem_map.1 hgroup
      exact Leaf.comparison_eq_ok ((h g hg).2 l hl) s
    have hrun := render_eq_ok t.operation (by simpa using fun g hg => (h g hg).1) hcomparisons s
    simpa [Function.comp_def, outline] using hrun
  constructor
  · intro h
    obtain ⟨rfl, hgroups⟩ := eq_text_of_render (Resolver.answers_ofFunction answer) h
    rw [hrender hgroups] at h
    cases h
    exact ⟨rfl, rfl, hgroups⟩
  · rintro ⟨rfl, rfl, hgroups⟩
    exact hrender hgroups

end

end Eligibility
