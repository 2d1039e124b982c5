import Eligibility.Proofs.Rendering
import Eligibility.Proofs.RoundTrip

/-!
# From trees to texts and back

Any tree that is rendered under the inverse of a directory gives a text that compiles under the
directory. The tree that comes back is the normal form of the first one, with conventional leaves
(`Tree.compileText_of_render`): so it has the same text, it has the same meaning if the leaves were
conventional, and it is the same tree exactly if they were and the tree was normal.
-/

namespace Eligibility

variable {σ τ : Type}

/-! ## Conventional leaves -/

/-- The leaf is one that comparisons compile to. -/
structure Leaf.IsConventional (l : Leaf) : Prop where
  /-- The property begins as all properties do. -/
  property : ∃ name, l.key.property = "attribute." ++ name
  /-- An attribute of the identity has no source. -/
  sourceId : l.key.kind = .identity → l.key.sourceId = none

/-- The leaf that states the same comparison and is conventional. -/
def Leaf.conventional (l : Leaf) : Leaf :=
  { operation := l.operation
    key :=
      { kind := l.key.kind
        property := propertyOfName l.key.attributeName
        sourceId := if l.key.kind = .identity then none else l.key.sourceId }
    value := l.value }

theorem Key.propertyOfName_attributeName {k : Key} :
    propertyOfName k.attributeName = k.property ↔ ∃ name, k.property = "attribute." ++ name := by
  constructor
  · intro h
    exact ⟨k.attributeName, h.symm⟩
  · rintro ⟨name, hname⟩
    have hlist : k.property.toList = propertyStart.toList ++ name.toList := by
      rw [hname, String.toList_append]
      rfl
    have hdrop : k.attributeName = name := by
      rw [attributeName, hlist, dropStart?_append]
      exact String.ofList_toList
    rw [hdrop, hname]
    rfl

theorem Leaf.conventional_eq_iff {l : Leaf} : l.conventional = l ↔ l.IsConventional := by
  obtain ⟨operation, key, value⟩ := l
  constructor
  · intro h
    have hkey := congrArg Leaf.key h
    refine ⟨Key.propertyOfName_attributeName.1 (congrArg Key.property hkey), fun hkind => ?_⟩
    have hsource := congrArg Key.sourceId hkey
    simp only [conventional] at hkind hsource
    rw [if_pos hkind] at hsource
    exact hsource.symm
  · rintro ⟨hproperty, hsource⟩
    have hsame : (if key.kind = .identity then none else key.sourceId) = key.sourceId := by
      split
      · rename_i hkind
        exact (hsource hkind).symm
      · rfl
    rw [conventional, hsame, Key.propertyOfName_attributeName.2 hproperty]

/-! ## Directories -/

namespace Directory

variable {d : Directory} {id name : String}

theorem leastName_eq (h : d.IsLeastName id name) : d.leastName name = name := by
  have hname := find?_inverse_leastName h.found
  rw [find?_inverse.2 h] at hname
  exact (Option.some.inj hname).symm

theorem isLeastName_of_resolve_inverse (h : d.inverse.resolve id = .ok name) :
    d.IsLeastName id name :=
  find?_inverse.1 (resolve_eq_ok.1 h)

end Directory

theorem KeyKind.source?_scope {kind : KeyKind} (h : kind ≠ .identity) (source : String) :
    (kind.scope source).source? = some source := by
  cases kind with
  | identity => contradiction
  | account => rfl
  | entitlement => rfl

namespace Leaf

variable {d : Directory} {l : Leaf}

/-- The source that a leaf states is the smallest name of its id. -/
theorem isLeastName_of_stated (h : l.IsStated d.inverse.resolve) {source : String}
    (hsource : (l.stated d.inverse.resolve).source? = some source) :
    ∃ id, l.key.sourceId = some id ∧ d.IsLeastName id source := by
  rw [Comparison.source?] at hsource
  rcases h.scope_cases with ⟨-, hscope⟩ | ⟨id, name, hkind, hid, hname, hscope⟩
  · rw [hscope] at hsource
    cases hsource
  · rw [hscope, KeyKind.source?_scope hkind] at hsource
    obtain rfl : name = source := Option.some.inj hsource
    exact ⟨id, hid, Directory.isLeastName_of_resolve_inverse hname⟩

/-- The leaf of the comparison that a leaf states is the conventional one. -/
theorem lowered_stated (h : l.IsStated d.inverse.resolve) :
    (l.stated d.inverse.resolve).lowered d.resolve = l.conventional := by
  -- equality with a list is written as membership, which compiles to equality again
  have hoperation : l.operator.predicate = l.operation := by
    unfold Leaf.operator
    split
    · rename_i hlist
      simp only [Bool.and_eq_true, decide_eq_true_eq] at hlist
      rw [hlist.1]
      rfl
    · exact Predicate.predicate_operator l.operation
  obtain ⟨operation, ⟨kind, property, sourceId⟩, value⟩ := l
  rcases h.scope_cases with ⟨hkind, hscope⟩ | ⟨id, name, hkind, hid, hname, hscope⟩
  · obtain rfl : kind = .identity := hkind
    simp only [Comparison.lowered, hscope]
    simp only [stated, hoperation, conventional]
    rfl
  · obtain rfl : sourceId = some id := hid
    have hfound := Directory.resolve_eq_ok.2 (Directory.isLeastName_of_resolve_inverse hname).found
    simp only [Comparison.lowered, hscope]
    simp only [stated, hoperation, conventional, if_neg hkind]
    cases kind with
    | identity => contradiction
    | account =>
      simp only [KeyKind.scope, hfound]
      rfl
    | entitlement =>
      simp only [KeyKind.scope, hfound]
      rfl

theorem settled_stated (h : l.IsStated d.inverse.resolve) :
    (l.stated d.inverse.resolve).settled d.leastName = l.stated d.inverse.resolve := by
  have hoperator : l.operator.settled l.value = l.operator := by
    obtain ⟨operation, key, value⟩ := l
    cases operation <;> cases value <;> rfl
  have hscope : (l.stated d.inverse.resolve).subject.scope.mapSource d.leastName =
      (l.stated d.inverse.resolve).subject.scope := by
    rcases h.scope_cases with ⟨-, hscope⟩ | ⟨id, name, hkind, -, hname, hscope⟩
    · rw [hscope]
      rfl
    · have hleast := Directory.leastName_eq (Directory.isLeastName_of_resolve_inverse hname)
      rw [hscope]
      cases hkey : l.key.kind with
      | identity => contradiction
      | account => simp only [KeyKind.scope, Scope.mapSource, hleast]
      | entitlement => simp only [KeyKind.scope, Scope.mapSource, hleast]
  rw [Comparison.settled, hscope]
  exact congrArg (fun op => Comparison.mk op _ _) hoperator

/-- From the comparison that a leaf states a leaf is compiled that states it again. -/
theorem comparison_lowered_stated (h : l.IsStated d.inverse.resolve) (s : σ) :
    ((l.stated d.inverse.resolve).lowered d.resolve).comparison d.inverse.resolver s =
      .ok (l.stated d.inverse.resolve) s := by
  have hnamed : (l.stated d.inverse.resolve).NamedBack d.resolve
      (d.inverse.resolver : Resolver σ) d.leastName := by
    intro source hsource
    obtain ⟨id, -, hleast⟩ := isLeastName_of_stated h hsource
    have hname := Directory.find?_inverse_leastName hleast.found
    exact ⟨id, Directory.resolve_eq_ok.2 hleast.found, Directory.resolver_eq_ok hname⟩
  have hcomparison := Comparison.comparison_lowered hnamed h.value s
  rw [settled_stated h] at hcomparison
  exact hcomparison

end Leaf

/-! ## Trees -/

namespace Tree

variable {d : Directory} {t t' : Tree} {text : String} {s s' : σ}

theorem isWritten_outline {answer : String → Except LookupError String} (hne : t.groups ≠ [])
    (hgroups : ∀ g ∈ t.groups, g.leaves ≠ [] ∧ ∀ l ∈ g.leaves, l.IsStated answer) :
    (t.outline (Leaf.stated answer)).IsWritten := by
  constructor
  · simpa [outline] using hne
  · intro group hgroup
    obtain ⟨g, hg, rfl⟩ := List.mem_map.1 hgroup
    simpa using (hgroups g hg).1
  · intro group hgroup c hc
    obtain ⟨g, hg, rfl⟩ := List.mem_map.1 hgroup
    obtain ⟨l, hl, rfl⟩ := List.mem_map.1 hc
    exact ((hgroups g hg).2 l hl).value

theorem tree_outline {stated : Leaf → Comparison} {leaf : Comparison → Leaf} {f : Leaf → Leaf}
    (h : ∀ l ∈ t.leaves, leaf (stated l) = f l) :
    (t.outline stated).tree leaf = t.mapLeaves f := by
  simp only [outline, Outline.tree, mapLeaves, List.map_map, Function.comp_def]
  congr 1
  refine List.map_congr_left fun g hg => ?_
  congr 1
  exact List.map_congr_left fun l hl => h l (List.mem_flatMap.2 ⟨g, hg, hl⟩)

/-- What is known of a tree that is rendered under the inverse of a directory. -/
theorem outline_of_render (hne : t.groups ≠ []) (h : t.render d.inverse.resolver s = .ok text s') :
    text = (t.outline (Leaf.stated d.inverse.resolve)).text ∧
      (t.outline (Leaf.stated d.inverse.resolve)).IsWritten ∧
      (∀ g ∈ t.groups, g.leaves ≠ []) ∧ ∀ l ∈ t.leaves, l.IsStated d.inverse.resolve := by
  obtain ⟨htext, hgroups⟩ := eq_text_of_render d.inverse.answers_resolver h
  refine ⟨htext, isWritten_outline hne hgroups, fun g hg => (hgroups g hg).1, fun l hl => ?_⟩
  obtain ⟨g, hg, hl⟩ := List.mem_flatMap.1 hl
  exact (hgroups g hg).2 l hl

/-- The outline that the text is read as has the normal tree with conventional leaves. -/
theorem tree_outline_expression (h : ∀ l ∈ t.leaves, l.IsStated d.inverse.resolve) :
    (t.outline (Leaf.stated d.inverse.resolve)).expression.outline.tree
        (Comparison.lowered d.resolve) =
      (t.mapLeaves Leaf.conventional).normalized := by
  have hleaves : ∀ l ∈ t.leaves,
      (l.stated d.inverse.resolve).lowered d.resolve = l.conventional :=
    fun l hl => Leaf.lowered_stated (h l hl)
  rw [Outline.tree_expression, tree_outline hleaves]

theorem exists_leaf_of_mem_comparisons {stated : Leaf → Comparison} {c : Comparison}
    (h : c ∈ (t.outline stated).expression.comparisons) : ∃ l ∈ t.leaves, stated l = c := by
  rw [Outline.comparisons_expression, comparisons_outline] at h
  exact List.mem_map.1 h

/-- The text of a rendered tree compiles, and to the normal tree with conventional leaves. -/
theorem compileText_of_render (hne : t.groups ≠ [])
    (h : t.render d.inverse.resolver s = .ok text s') (u : τ) :
    Expression.compileText d.resolver .role text u =
      .ok (t.mapLeaves Leaf.conventional).normalized u := by
  obtain ⟨rfl, hwritten, -, hstated⟩ := outline_of_render hne h
  have hcompiles : ∀ c ∈ (t.outline (Leaf.stated d.inverse.resolve)).expression.comparisons,
      c.Resolved d.resolve ∧ ¬ c.IsRefused .role := by
    intro c hc
    obtain ⟨l, hl, rfl⟩ := exists_leaf_of_mem_comparisons hc
    refine ⟨fun source hsource => ?_, fun hrefused => ?_⟩
    · obtain ⟨id, -, hleast⟩ := Leaf.isLeastName_of_stated (hstated l hl) hsource
      exact ⟨id, Directory.resolve_eq_ok.2 hleast.found⟩
    · cases hrefused.1
  rw [Expression.compileText, Outline.parse_written hwritten, ← tree_outline_expression hstated]
  exact Expression.compile_eq_ok (Outline.depth_expression_le _) hcompiles u

/-- The tree that comes back from the text has the text. -/
theorem render_normalized (hne : t.groups ≠ [])
    (h : t.render d.inverse.resolver s = .ok text s') (u : τ) :
    (t.mapLeaves Leaf.conventional).normalized.render d.inverse.resolver u = .ok text u := by
  obtain ⟨rfl, hwritten, -, hstated⟩ := outline_of_render hne h
  -- the leaves that come back state the comparisons that they were compiled from
  have hcomparisons :
      ∀ c ∈ (t.outline (Leaf.stated d.inverse.resolve)).expression.outline.comparisons,
        ∀ u : τ, (c.lowered d.resolve).comparison d.inverse.resolver u = .ok (id c) u := by
    intro c hc u
    rw [Expression.comparisons_outline] at hc
    obtain ⟨l, hl, rfl⟩ := exists_leaf_of_mem_comparisons hc
    exact Leaf.comparison_lowered_stated (hstated l hl) u
  have hregular := Outline.isRegular_expression hwritten
  have hrender := Outline.render_tree (fun _ => Expression.ne_nil_of_mem_outline hregular)
    hcomparisons u
  rw [← tree_outline_expression hstated, ← Outline.text_expression hwritten.groups]
  simpa [Outline.map] using hrender

/-- The text of any tree compiles, and the tree that comes back is rendered to the same text. -/
theorem render_compile_render (hne : t.groups ≠ [])
    (h : t.render d.inverse.resolver s = .ok text s') (u : τ) :
    ∃ t', Expression.compileText d.resolver .role text u = .ok t' u ∧
      t'.render d.inverse.resolver u = .ok text u :=
  ⟨_, compileText_of_render hne h u, render_normalized hne h u⟩

/-- Groups of one leaf, with a property that does not begin as others do, a source that an identity
does not need, and an alias. -/
theorem render_compile_render_unusual :
    Tree.render (Directory.ofPairs [("HR", "7"), ("Employees", "7")]).inverse.resolver
        ⟨.or, [
          ⟨.or, [⟨.equals, ⟨.account, "a", some "7"⟩, .list ["x"]⟩]⟩,
          ⟨.and, [⟨.equals, ⟨.identity, "attribute.b", some "9"⟩, .single "y"⟩]⟩]⟩ () =
      .ok "'Employees'.attribute.a in ('x') or identity.b eq 'y'" () ∧
    ∃ t', Expression.compileText (Directory.ofPairs [("HR", "7"), ("Employees", "7")]).resolver
          .role "'Employees'.attribute.a in ('x') or identity.b eq 'y'" () = .ok t' () ∧
      t'.render (Directory.ofPairs [("HR", "7"), ("Employees", "7")]).inverse.resolver () =
        .ok "'Employees'.attribute.a in ('x') or identity.b eq 'y'" () := by
  have hrender : Tree.render (Directory.ofPairs [("HR", "7"), ("Employees", "7")]).inverse.resolver
      ⟨.or, [
        ⟨.or, [⟨.equals, ⟨.account, "a", some "7"⟩, .list ["x"]⟩]⟩,
        ⟨.and, [⟨.equals, ⟨.identity, "attribute.b", some "9"⟩, .single "y"⟩]⟩]⟩ () =
      .ok "'Employees'.attribute.a in ('x') or identity.b eq 'y'" () := by rfl
  exact ⟨hrender, render_compile_render (by simp) hrender ()⟩

/-- A tree comes back from its text exactly if it is normal and its leaves are conventional. -/
theorem render_compile_eq_iff {u u' : τ} (hne : t.groups ≠ [])
    (hrender : t.render d.inverse.resolver s = .ok text s')
    (hcompile : Expression.compileText d.resolver .role text u = .ok t' u') :
    t' = t ↔ (∀ l ∈ t.leaves, l.IsConventional) ∧ t.IsNormal := by
  rw [compileText_of_render hne hrender] at hcompile
  cases hcompile
  obtain ⟨-, -, hleaves, -⟩ := outline_of_render hne hrender
  constructor
  · intro h
    -- normalizing keeps the leaves, so a changed leaf would show in the leaves
    have hsame := congrArg leaves h
    rw [leaves_normalized, leaves_mapLeaves] at hsame
    have hconventional : ∀ l ∈ t.leaves, l.conventional = l := by
      have hid : t.leaves.map Leaf.conventional = t.leaves.map id := by rwa [List.map_id]
      exact List.map_inj_left.1 hid
    rw [mapLeaves_eq_self hconventional] at h
    exact ⟨fun l hl => Leaf.conventional_eq_iff.1 (hconventional l hl),
      (normalized_eq_iff hne hleaves).1 h⟩
  · rintro ⟨hconventional, hnormal⟩
    rw [mapLeaves_eq_self fun l hl => Leaf.conventional_eq_iff.2 (hconventional l hl)]
    exact hnormal.normalized_eq

/-- A group of two leaves beside a group of one. -/
theorem render_compile_eq_mixed :
    (∀ l ∈ leaves ⟨.and, [
        ⟨.or, [⟨.contains, ⟨.identity, "attribute.a", none⟩, .single "x"⟩]⟩,
        ⟨.or, [
          ⟨.equals, ⟨.identity, "attribute.b", none⟩, .list ["y", "z"]⟩,
          ⟨.notEquals, ⟨.entitlement, "attribute.c", some "7"⟩, .single ""⟩]⟩]⟩,
        l.IsConventional) ∧
      IsNormal ⟨.and, [
        ⟨.or, [⟨.contains, ⟨.identity, "attribute.a", none⟩, .single "x"⟩]⟩,
        ⟨.or, [
          ⟨.equals, ⟨.identity, "attribute.b", none⟩, .list ["y", "z"]⟩,
          ⟨.notEquals, ⟨.entitlement, "attribute.c", some "7"⟩, .single ""⟩]⟩]⟩ := by
  have hrender : render (Directory.ofPairs [("HR", "7")]).inverse.resolver
      ⟨.and, [
        ⟨.or, [⟨.contains, ⟨.identity, "attribute.a", none⟩, .single "x"⟩]⟩,
        ⟨.or, [
          ⟨.equals, ⟨.identity, "attribute.b", none⟩, .list ["y", "z"]⟩,
          ⟨.notEquals, ⟨.entitlement, "attribute.c", some "7"⟩, .single ""⟩]⟩]⟩ () =
      .ok "(identity.a co 'x') and (identity.b in ('y','z') or 'HR'.entitlement.c ne '')" () := by
    rfl
  have hparse : Expression.parse
      "(identity.a co 'x') and (identity.b in ('y','z') or 'HR'.entitlement.c ne '')" =
        .ok (.logical .and [
          .comparison ⟨.contains, ⟨.identity, "a"⟩, .single "x"⟩,
          .logical .or [
            .comparison ⟨.oneOf, ⟨.identity, "b"⟩, .list ["y", "z"]⟩,
            .comparison ⟨.notEqual, ⟨.entitlement "HR", "c"⟩, .single ""⟩]]) := by decide +kernel
  have hcompile : Expression.compileText (Directory.ofPairs [("HR", "7")]).resolver .role
      "(identity.a co 'x') and (identity.b in ('y','z') or 'HR'.entitlement.c ne '')" () =
        .ok ⟨.and, [
          ⟨.or, [⟨.contains, ⟨.identity, "attribute.a", none⟩, .single "x"⟩]⟩,
          ⟨.or, [
            ⟨.equals, ⟨.identity, "attribute.b", none⟩, .list ["y", "z"]⟩,
            ⟨.notEquals, ⟨.entitlement, "attribute.c", some "7"⟩, .single ""⟩]⟩]⟩ () := by
    rw [Expression.compileText, hparse]
    rfl
  exact (render_compile_eq_iff (by simp) hrender hcompile).1 rfl

/-- The text of a tree with conventional leaves compiles to a tree with the same leaves and the same
meaning. -/
theorem render_compile_preserves_meaning {u u' : τ} (hne : t.groups ≠ [])
    (hconventional : ∀ l ∈ t.leaves, l.IsConventional)
    (hrender : t.render d.inverse.resolver s = .ok text s')
    (hcompile : Expression.compileText d.resolver .role text u = .ok t' u') :
    t'.leaves = t.leaves ∧ ∀ truth : Leaf → Bool, t'.eval truth = t.eval truth := by
  rw [compileText_of_render hne hrender,
    mapLeaves_eq_self fun l hl => Leaf.conventional_eq_iff.2 (hconventional l hl)] at hcompile
  cases hcompile
  exact ⟨leaves_normalized t, fun truth => eval_normalized truth t⟩

/-- Groups of one leaf come into one group, and their connectives are lost. -/
theorem render_compile_preserves_meaning_single :
    eval (fun l => l.operation = .equals) ⟨.or, [⟨.and, [
        ⟨.equals, ⟨.identity, "attribute.a", none⟩, .single "x"⟩,
        ⟨.contains, ⟨.account, "attribute.b", some "7"⟩, .single "y"⟩]⟩]⟩ =
      eval (fun l => l.operation = .equals) ⟨.and, [
        ⟨.or, [⟨.equals, ⟨.identity, "attribute.a", none⟩, .single "x"⟩]⟩,
        ⟨.and, [⟨.contains, ⟨.account, "attribute.b", some "7"⟩, .single "y"⟩]⟩]⟩ := by
  have hconventional : ∀ l ∈ leaves ⟨.and, [
      ⟨.or, [⟨.equals, ⟨.identity, "attribute.a", none⟩, .single "x"⟩]⟩,
      ⟨.and, [⟨.contains, ⟨.account, "attribute.b", some "7"⟩, .single "y"⟩]⟩]⟩,
      l.IsConventional := by
    intro l hl
    simp only [leaves, List.flatMap_cons, List.flatMap_nil, List.singleton_append, List.mem_cons,
      List.append_nil, List.not_mem_nil, or_false] at hl
    rcases hl with rfl | rfl
    · exact ⟨⟨"a", by decide⟩, fun _ => rfl⟩
    · exact ⟨⟨"b", by decide⟩, fun hkind => absurd hkind (by decide)⟩
  have hrender : render (Directory.ofPairs [("HR", "7")]).inverse.resolver
      ⟨.and, [
        ⟨.or, [⟨.equals, ⟨.identity, "attribute.a", none⟩, .single "x"⟩]⟩,
        ⟨.and, [⟨.contains, ⟨.account, "attribute.b", some "7"⟩, .single "y"⟩]⟩]⟩ () =
      .ok "identity.a eq 'x' and 'HR'.attribute.b co 'y'" () := by rfl
  have hparse : Expression.parse "identity.a eq 'x' and 'HR'.attribute.b co 'y'" =
      .ok (.logical .and [
        .comparison ⟨.equal, ⟨.identity, "a"⟩, .single "x"⟩,
        .comparison ⟨.contains, ⟨.account "HR", "b"⟩, .single "y"⟩]) := by decide +kernel
  have hcompile : Expression.compileText (Directory.ofPairs [("HR", "7")]).resolver .role
      "identity.a eq 'x' and 'HR'.attribute.b co 'y'" () =
        .ok ⟨.or, [⟨.and, [
          ⟨.equals, ⟨.identity, "attribute.a", none⟩, .single "x"⟩,
          ⟨.contains, ⟨.account, "attribute.b", some "7"⟩, .single "y"⟩]⟩]⟩ () := by
    rw [Expression.compileText, hparse]
    rfl
  exact (render_compile_preserves_meaning (by simp) hconventional hrender hcompile).2 _

end Tree

end Eligibility
