import Eligibility.Proofs.Recompilation

/-!
# Adding a source to a directory

A directory with one more source compiles all that it compiled before, to the same trees. Trees are
rendered to the same texts, but for the leaves whose id has a smaller name now: they are written
with the new name, and the text still compiles to the tree that the old one compiled to
(`Directory.insert_safe`).
-/

namespace Eligibility

variable {σ : Type} {d : Directory} {name id : String}

/-! ## What the larger directory finds -/

namespace Directory

theorem find?_insert_of_find? (hname : d.find? name = none) {other i : String}
    (h : d.find? other = some i) : (d.insert name id).find? other = some i := by
  have hne : other ≠ name := by
    rintro rfl
    rw [hname] at h
    cases h
  rw [find?_insert, if_neg hne, h]

theorem find?_insert_eq_some_iff (hname : d.find? name = none) {other i : String} :
    (d.insert name id).find? other = some i ↔
      d.find? other = some i ∨ other = name ∧ i = id := by
  constructor
  · intro h
    rw [find?_insert] at h
    split at h
    · rename_i hother
      exact .inr ⟨hother, (Option.some.inj h).symm⟩
    · exact .inl h
  · rintro (h | ⟨rfl, rfl⟩)
    · exact find?_insert_of_find? hname h
    · simp [find?_insert]

theorem resolve_insert (hname : d.find? name = none) {other i : String}
    (h : d.resolve other = .ok i) : (d.insert name id).resolve other = .ok i :=
  resolve_eq_ok.2 (find?_insert_of_find? hname (resolve_eq_ok.1 h))

/-- The new name is smaller than all names that the id had before. -/
def Precedes (d : Directory) (name id : String) : Prop :=
  ∀ other, d.find? other = some id → utf8 name < utf8 other

theorem isLeastName_insert {i least : String} (hname : d.find? name = none)
    (h : d.IsLeastName i least) (hkept : ¬ (i = id ∧ d.Precedes name id)) :
    (d.insert name id).IsLeastName i least := by
  refine ⟨find?_insert_of_find? hname h.found, fun other hother => ?_⟩
  rcases (find?_insert_eq_some_iff hname).1 hother with hother | ⟨rfl, rfl⟩
  · exact h.least other hother
  · -- some name of the id is not greater than the new one, and the least is not greater than it
    obtain ⟨known, hknown⟩ := Classical.not_forall.1 fun hall => hkept ⟨rfl, hall⟩
    obtain ⟨hfound, hle⟩ := Classical.not_imp.1 hknown
    exact Std.le_trans (h.least known hfound) (List.not_lt.1 hle)

theorem isLeastName_insert_self (hname : d.find? name = none) (h : d.Precedes name id) :
    (d.insert name id).IsLeastName id name := by
  refine ⟨by simp [find?_insert], fun other hother => ?_⟩
  rcases (find?_insert_eq_some_iff hname).1 hother with hother | ⟨rfl, -⟩
  · exact Std.le_of_lt (h other hother)
  · exact Std.le_refl _

end Directory

/-! ## Compiling -/

/-- What compiles under a directory compiles under a larger one, to the same tree. -/
theorem Expression.compile_insert (hname : d.find? name = none) {variant : Variant}
    {e : Expression} {t : Tree} {s s' : σ} (h : e.compile d.resolver variant s = .ok t s') :
    e.compile (d.insert name id).resolver variant s = .ok t s' := by
  obtain ⟨hdepth, rfl, hcompiles⟩ := eq_tree_of_compile d.answers_resolver h
  rw [compile_eq_ok hdepth hcompiles] at h
  obtain rfl : s = s' := by
    cases h
    rfl
  have hlarger : ∀ c ∈ e.comparisons,
      c.Resolved (d.insert name id).resolve ∧ ¬ c.IsRefused variant := by
    intro c hc
    refine ⟨fun source hsource => ?_, (hcompiles c hc).2⟩
    obtain ⟨i, hi⟩ := (hcompiles c hc).1 source hsource
    exact ⟨i, Directory.resolve_insert hname hi⟩
  have hsame : ∀ c ∈ e.outline.comparisons,
      c.lowered (d.insert name id).resolve = c.lowered d.resolve := by
    intro c hc
    rw [comparisons_outline] at hc
    refine Comparison.lowered_congr fun source hsource => ?_
    obtain ⟨i, hi⟩ := (hcompiles c hc).1 source hsource
    rw [hi, Directory.resolve_insert hname hi]
  rw [compile_eq_ok hdepth hlarger, Outline.tree_congr hsame]

/-! ## Rendering -/

namespace Leaf

variable {l : Leaf}

/-- The leaf is one of an account or an entitlement on the source with this id. -/
def UsesId (id : String) (l : Leaf) : Prop :=
  l.key.kind ≠ .identity ∧ l.key.sourceId = some id

theorem isStated_insert (hname : d.find? name = none) (h : l.IsStated d.inverse.resolve) :
    l.IsStated (d.insert name id).inverse.resolve := by
  refine ⟨fun hkind => ?_, h.value⟩
  obtain ⟨i, known, hi, hknown⟩ := h.named hkind
  have hfound := (Directory.isLeastName_of_resolve_inverse hknown).found
  have hlarger : (d.insert name id).find? known = some i :=
    Directory.find?_insert_of_find? hname hfound
  obtain ⟨least, hleast⟩ := Directory.exists_find?_inverse hlarger
  exact ⟨i, least, hi, Directory.resolve_eq_ok.2 hleast⟩

theorem stated_insert (hname : d.find? name = none) (h : l.IsStated d.inverse.resolve)
    (hkept : ¬ (l.UsesId id ∧ d.Precedes name id)) :
    l.stated (d.insert name id).inverse.resolve = l.stated d.inverse.resolve := by
  refine stated_congr fun hkind i hi => ?_
  obtain ⟨other, known, hother, hknown⟩ := h.named hkind
  obtain rfl : i = other := Option.some.inj (hi.symm.trans hother)
  have hleast := Directory.isLeastName_of_resolve_inverse hknown
  have hsame : ¬ (i = id ∧ d.Precedes name id) := by
    rintro ⟨rfl, hprecedes⟩
    exact hkept ⟨⟨hkind, hi⟩, hprecedes⟩
  rw [hknown]
  exact Directory.resolve_eq_ok.2
    (Directory.find?_inverse.2 (Directory.isLeastName_insert hname hleast hsame))

/-- A leaf of the id is written with the new name, if that is the smallest now. -/
theorem stated_insert_ne (hname : d.find? name = none) (h : l.IsStated d.inverse.resolve)
    (huses : l.UsesId id) (hprecedes : d.Precedes name id) :
    l.stated (d.insert name id).inverse.resolve ≠ l.stated d.inverse.resolve := by
  intro heq
  have hsource (d : Directory) {known : String} (hknown : d.inverse.resolve id = .ok known) :
      (l.stated d.inverse.resolve).source? = some known := by
    rw [Comparison.source?, stated, huses.2]
    simp only [Option.bind_some, hknown]
    exact KeyKind.source?_scope huses.1 known
  have hnew := Directory.isLeastName_insert_self hname hprecedes
  obtain ⟨i, known, hi, hknown⟩ := h.named huses.1
  obtain rfl : i = id := Option.some.inj (hi.symm.trans huses.2)
  have hold := (Directory.isLeastName_of_resolve_inverse hknown).found
  have hsame := hsource _ (Directory.resolve_eq_ok.2 (Directory.find?_inverse.2 hnew))
  rw [heq, hsource d hknown] at hsame
  obtain rfl : known = name := Option.some.inj hsame
  rw [hname] at hold
  cases hold

end Leaf

namespace Tree

variable {t : Tree}

/-- The new name is written exactly if some leaf uses its id and it is the smallest name. -/
theorem text_insert_eq_iff (hname : d.find? name = none)
    (h : ∀ g ∈ t.groups, g.leaves ≠ [] ∧ ∀ l ∈ g.leaves, l.IsStated d.inverse.resolve) :
    (t.outline (Leaf.stated (d.insert name id).inverse.resolve)).text =
        (t.outline (Leaf.stated d.inverse.resolve)).text ↔
      ¬ ((∃ l ∈ t.leaves, l.UsesId id) ∧ d.Precedes name id) := by
  have hstated : ∀ l ∈ t.leaves, l.IsStated d.inverse.resolve := by
    intro l hl
    obtain ⟨g, hg, hl⟩ := List.mem_flatMap.1 hl
    exact (h g hg).2 l hl
  constructor
  · rintro htext ⟨⟨l, hl, huses⟩, hprecedes⟩
    have hne : t.groups ≠ [] := by
      obtain ⟨g, hg, -⟩ := List.mem_flatMap.1 hl
      exact List.ne_nil_of_mem hg
    -- equal texts are read as the same comparisons
    have hlarger : ∀ g ∈ t.groups, g.leaves ≠ [] ∧
        ∀ l ∈ g.leaves, l.IsStated (d.insert name id).inverse.resolve :=
      fun g hg => ⟨(h g hg).1, fun l hl => Leaf.isStated_insert hname ((h g hg).2 l hl)⟩
    have hold := Outline.parse_written (isWritten_outline hne h)
    have hnew := Outline.parse_written (isWritten_outline hne hlarger)
    rw [htext, hold] at hnew
    have hcomparisons := congrArg Expression.comparisons (Except.ok.inj hnew)
    rw [Outline.comparisons_expression, Outline.comparisons_expression, comparisons_outline,
      comparisons_outline] at hcomparisons
    exact Leaf.stated_insert_ne hname (hstated l hl) huses hprecedes
      (List.map_inj_left.1 hcomparisons l hl).symm
  · intro hkept
    have hsame : ∀ l ∈ t.leaves,
        l.stated (d.insert name id).inverse.resolve = l.stated d.inverse.resolve :=
      fun l hl => Leaf.stated_insert hname (hstated l hl) fun huses =>
        hkept ⟨⟨l, hl, huses.1⟩, huses.2⟩
    rw [outline_congr hsame]

end Tree

/-- Adding a source breaks nothing: expressions compile to the same trees, and trees are rendered,
to the same texts unless the new name is now the smallest of an id that the tree uses. The new text
of a tree compiles to what the old one compiled to. -/
theorem Directory.insert_safe (hname : d.find? name = none) :
    (∀ (variant : Variant) (e : Expression) (t : Tree) (s s' : σ),
      e.compile d.resolver variant s = .ok t s' →
        e.compile (d.insert name id).resolver variant s = .ok t s') ∧
    ∀ (t : Tree) (text : String) (s s' : σ), t.render d.inverse.resolver s = .ok text s' →
      ∃ text', t.render (d.insert name id).inverse.resolver s = .ok text' s' ∧
        (text' = text ↔
          ¬ ((∃ l ∈ t.leaves, l.key.kind ≠ .identity ∧ l.key.sourceId = some id) ∧
            ∀ other, d.find? other = some id → utf8 name < utf8 other)) ∧
        (t.groups ≠ [] → ∃ t',
          Expression.compileText d.resolver .role text s' = .ok t' s' ∧
          Expression.compileText (d.insert name id).resolver .role text' s' = .ok t' s') := by
  refine ⟨fun variant e t s s' h => Expression.compile_insert hname h, fun t text s s' h => ?_⟩
  obtain ⟨rfl, rfl, hgroups⟩ := Tree.render_eq_ok_iff.1 h
  have hrender : t.render (d.insert name id).inverse.resolver s' =
      .ok (t.outline (Leaf.stated (d.insert name id).inverse.resolve)).text s' :=
    Tree.render_eq_ok_iff.2 ⟨rfl, rfl, fun g hg =>
      ⟨(hgroups g hg).1, fun l hl => Leaf.isStated_insert hname ((hgroups g hg).2 l hl)⟩⟩
  refine ⟨_, hrender, Tree.text_insert_eq_iff hname hgroups, fun hne => ?_⟩
  exact ⟨_, Tree.compileText_of_render hne h s', Tree.compileText_of_render hne hrender s'⟩

/-- A new name that comes before the one that the id had, with a leaf for it beside another one. -/
theorem Directory.insert_safe_smaller :
    (ofPairs [("HR", "7"), ("LDAP", "8")]).find? "Employees" = none ∧
    ∃ text',
      Tree.render ((ofPairs [("HR", "7"), ("LDAP", "8")]).insert "Employees" "7").inverse.resolver
          ⟨.or, [
            ⟨.and, [⟨.equals, ⟨.account, "attribute.a", some "7"⟩, .single "x"⟩]⟩,
            ⟨.or, [⟨.contains, ⟨.entitlement, "attribute.b", some "8"⟩, .single "y"⟩]⟩]⟩ () =
        .ok text' () ∧
      text' ≠ "'HR'.attribute.a eq 'x' or 'LDAP'.entitlement.b co 'y'" ∧
      ∃ t',
        Expression.compileText (ofPairs [("HR", "7"), ("LDAP", "8")]).resolver .role
          "'HR'.attribute.a eq 'x' or 'LDAP'.entitlement.b co 'y'" () = .ok t' () ∧
        Expression.compileText
          ((ofPairs [("HR", "7"), ("LDAP", "8")]).insert "Employees" "7").resolver .role text' () =
            .ok t' () := by
  have hname : (ofPairs [("HR", "7"), ("LDAP", "8")]).find? "Employees" = none := by decide
  have hprecedes : ∀ other, (ofPairs [("HR", "7"), ("LDAP", "8")]).find? other = some "7" →
      utf8 "Employees" < utf8 other := by
    intro other hother
    obtain rfl : other = "HR" := by
      have hmem : (other, "7") ∈ [("HR", "7"), ("LDAP", "8")] := find?_eq_some_iff.1 hother
      simpa using hmem
    exact lt_iff_utf8_lt.1 (by decide)
  have hrender : Tree.render (ofPairs [("HR", "7"), ("LDAP", "8")]).inverse.resolver
      ⟨.or, [
        ⟨.and, [⟨.equals, ⟨.account, "attribute.a", some "7"⟩, .single "x"⟩]⟩,
        ⟨.or, [⟨.contains, ⟨.entitlement, "attribute.b", some "8"⟩, .single "y"⟩]⟩]⟩ () =
      .ok "'HR'.attribute.a eq 'x' or 'LDAP'.entitlement.b co 'y'" () := by rfl
  obtain ⟨text', hnew, htext, hcompile⟩ := (insert_safe hname).2 _ _ _ _ hrender
  refine ⟨hname, text', hnew, fun heq => ?_, hcompile (by simp)⟩
  refine htext.1 heq ⟨⟨_, List.mem_cons_self, ?_, rfl⟩, hprecedes⟩
  simp

end Eligibility
