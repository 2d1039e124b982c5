import Eligibility.Proofs.Compilation
import Eligibility.Proofs.Inverse
import Eligibility.Proofs.Layout

/-!
# From texts to trees and back

A tree that a rule text is compiled to is rendered, under the inverse of the directory, to a text
that compiles to the same tree (`Expression.compile_render_compile`). The second text need not state
the first expression: names that share an id are one after the way through the tree, and so are the
two operators for equality. `Comparison.settled` says what becomes of a comparison.
-/

namespace Eligibility

variable {σ : Type}

/-! ## Settled comparisons -/

/-- The operator that is written for one of its kind: `eq` with a value and `in` with a list. -/
def Operator.settled (op : Operator) (value : Literal) : Operator :=
  match op, value with
  | oneOf, .single _ => equal
  | equal, .list _ => oneOf
  | op, _ => op

/-- The scope with another name for its source. -/
def Scope.mapSource (name : String → String) : Scope → Scope
  | identity => identity
  | account source => account (name source)
  | entitlement source => entitlement (name source)

/-- The comparison that is written back, where every source has the given name. -/
def Comparison.settled (name : String → String) (c : Comparison) : Comparison :=
  { operator := c.operator.settled c.value
    subject := ⟨c.subject.scope.mapSource name, c.subject.property⟩
    value := c.value }

theorem Operator.predicate_settled (op : Operator) (value : Literal) :
    (op.settled value).predicate = op.predicate := by
  cases op <;> cases value <;> rfl

/-- The leaf of a comparison does not tell its operator from the one that is written for it. -/
theorem Comparison.operator_lowered (answer : String → Except LookupError String)
    (c : Comparison) : (c.lowered answer).operator = c.operator.settled c.value := by
  obtain ⟨op, subject, value⟩ := c
  cases op <;> cases value <;> rfl

theorem dropStart?_append (start text : List Char) :
    dropStart? start (start ++ text) = some text := by
  induction start with
  | nil => simp [dropStart?]
  | cons c start ih => simp [dropStart?, ih]

theorem Comparison.attributeName_lowered (answer : String → Except LookupError String)
    (c : Comparison) : (c.lowered answer).key.attributeName = c.subject.property := by
  have hproperty : (c.lowered answer).key.property = propertyStart ++ c.subject.property := by
    obtain ⟨op, ⟨scope, property⟩, value⟩ := c
    cases scope <;> rfl
  unfold Key.attributeName
  rw [hproperty, String.toList_append, dropStart?_append]
  simp

/-! ## A comparison on the way through a tree -/

/-- For the id of the source that the comparison names, the resolver gives the name. -/
def Comparison.NamedBack (answer : String → Except LookupError String) (resolver : Resolver σ)
    (name : String → String) (c : Comparison) : Prop :=
  ∀ source, c.source? = some source →
    ∃ id, answer source = .ok id ∧ ∀ s, resolver id s = .ok (name source) s

namespace Comparison

variable {answer : String → Except LookupError String} {resolver : Resolver σ}
  {name : String → String} {c : Comparison}

theorem scope_lowered (h : c.NamedBack answer resolver name) (s : σ) :
    (c.lowered answer).scope resolver s = .ok (c.subject.scope.mapSource name) s := by
  obtain ⟨op, ⟨scope, property⟩, value⟩ := c
  cases scope with
  | identity => rfl
  | account source =>
    obtain ⟨id, hid, hname⟩ := h source rfl
    have hask := Resolver.ask_ok (hname s)
    simp only [lowered, hid, Except.toOption]
    exact bind_eq_ok.2 ⟨_, s, hask, rfl⟩
  | entitlement source =>
    obtain ⟨id, hid, hname⟩ := h source rfl
    have hask := Resolver.ask_ok (hname s)
    simp only [lowered, hid, Except.toOption]
    exact bind_eq_ok.2 ⟨_, s, hask, rfl⟩

/-- The leaf of a comparison states the settled comparison. -/
theorem comparison_lowered (h : c.NamedBack answer resolver name) (hvalue : c.value ≠ .list [])
    (s : σ) : (c.lowered answer).comparison resolver s = .ok (c.settled name) s := by
  refine bind_eq_ok.2 ⟨_, s, scope_lowered h s, ?_⟩
  have hsame : (c.lowered answer).value = c.value := rfl
  rw [hsame, if_neg hvalue, operator_lowered, attributeName_lowered]
  rfl

/-- The settled comparison has the leaf of the comparison, if its source has the same id. -/
theorem lowered_settled
    (h : ∀ source, c.source? = some source → answer (name source) = answer source) :
    (c.settled name).lowered answer = c.lowered answer := by
  obtain ⟨op, ⟨scope, property⟩, value⟩ := c
  have hoperator := op.predicate_settled value
  cases scope with
  | identity => simp [lowered, settled, Scope.mapSource, hoperator]
  | account source => simp [lowered, settled, Scope.mapSource, hoperator, h source rfl]
  | entitlement source => simp [lowered, settled, Scope.mapSource, hoperator, h source rfl]

theorem source?_settled : (c.settled name).source? = c.source?.map name := by
  obtain ⟨op, ⟨scope, property⟩, value⟩ := c
  cases scope <;> rfl

/-- A comparison whose source is resolved is compiled to its leaf. -/
theorem compile_eq_ok {variant : Variant} (hrefused : ¬ c.IsRefused variant)
    (h : ∀ source, c.source? = some source →
      ∃ id, answer source = .ok id ∧ ∀ s, resolver source s = .ok id s) (s : σ) :
    c.compile resolver variant s = .ok (c.lowered answer) s := by
  cases hsource : c.source? with
  | none =>
    rw [compile_of_noSource hrefused hsource, leaf_of_noSource answer hsource]
    rfl
  | some source =>
    obtain ⟨id, hid, hresolver⟩ := h source hsource
    rw [compile_of_source hrefused hsource]
    refine bind_eq_ok.2 ⟨id, s, Resolver.ask_ok (hresolver s), ?_⟩
    rw [leaf_of_resolved hsource hid]
    rfl

end Comparison

/-! ## Directories -/

namespace Directory

variable {d : Directory} {name id : String}

/-- The name that is written for a name of the directory: the smallest one with the same id. -/
def leastName (d : Directory) (name : String) : String :=
  match d.find? name with
  | some id => (d.inverse.find? id).getD name
  | none => name

theorem find?_inverse_leastName (h : d.find? name = some id) :
    d.inverse.find? id = some (d.leastName name) := by
  obtain ⟨least, hleast⟩ := exists_find?_inverse h
  simp [leastName, h, hleast]

theorem isLeastName_leastName (h : d.find? name = some id) : d.IsLeastName id (d.leastName name) :=
  find?_inverse.1 (find?_inverse_leastName h)

theorem resolver_eq_ok (h : d.find? name = some id) (s : σ) : d.resolver name s = .ok id s := by
  simp [resolver, Resolver.ofFunction, resolve_eq_ok.2 h]

theorem answers_resolver (d : Directory) : (d.resolver : Resolver σ).Answers d.resolve :=
  Resolver.answers_ofFunction d.resolve

end Directory

/-! ## The round trip -/

namespace Expression

variable {d : Directory} {variant : Variant} {e : Expression}

/-- The expression that is written back: its comparisons are settled, with the smallest name for
every source. -/
def settled (d : Directory) (e : Expression) : Expression :=
  e.mapComparisons (Comparison.settled d.leastName)

/-- The tree of an expression is rendered like the outline of the settled expression. -/
theorem render_tree_outline (hregular : e.IsRegular)
    (hresolved : ∀ c ∈ e.comparisons, c.Resolved d.resolve) (s : σ) :
    (e.outline.tree (Comparison.lowered d.resolve)).render d.inverse.resolver s =
      .ok (e.settled d).outline.text s := by
  have hleaves : ∀ c ∈ e.outline.comparisons, ∀ s : σ,
      (c.lowered d.resolve).comparison d.inverse.resolver s = .ok (c.settled d.leastName) s := by
    intro c hc s
    rw [comparisons_outline] at hc
    refine Comparison.comparison_lowered (fun source hsource => ?_) ?_ s
    · obtain ⟨id, hid⟩ := hresolved c hc source hsource
      have hname := Directory.find?_inverse_leastName (Directory.resolve_eq_ok.1 hid)
      exact ⟨id, hid, Directory.resolver_eq_ok hname⟩
    · exact value_ne_of_isRegular hregular c hc
  rw [settled, outline_mapComparisons]
  exact Outline.render_tree (fun _ => ne_nil_of_mem_outline hregular) hleaves s

/-- The tree of an expression is rendered to a text of the settled expression. -/
theorem render_outline (hregular : e.IsRegular) (hdepth : e.depth ≤ maxDepth)
    (hresolved : ∀ c ∈ e.comparisons, c.Resolved d.resolve) (s : σ) :
    ∃ rendered, (e.outline.tree (Comparison.lowered d.resolve)).render d.inverse.resolver s =
        .ok rendered s ∧ parse rendered = .ok (e.settled d) := by
  have hvalue : ∀ c : Comparison, (c.settled d.leastName).value = c.value := fun _ => rfl
  have hrender := render_tree_outline hregular hresolved s
  refine ⟨_, hrender, Level.parse_of_spells (spells_outline ?_ ?_) 0⟩
  · exact isRegular_mapComparisons hvalue e hregular
  · rwa [settled, depth_mapComparisons]

/-- An expression that is not too deep compiles if its sources are in the directory and the variant
has leaves for its comparisons. -/
theorem compile_eq_ok (hdepth : e.depth ≤ maxDepth)
    (hcompiles : ∀ c ∈ e.comparisons, c.Resolved d.resolve ∧ ¬ c.IsRefused variant) (s : σ) :
    e.compile d.resolver variant s = .ok (e.outline.tree (Comparison.lowered d.resolve)) s := by
  rw [compile_eq hdepth]
  refine Outline.compile_eq_ok (fun c hc s => ?_) s
  rw [comparisons_outline] at hc
  obtain ⟨hresolved, hrefused⟩ := hcompiles c hc
  refine Comparison.compile_eq_ok hrefused (fun source hsource => ?_) s
  obtain ⟨id, hid⟩ := hresolved source hsource
  exact ⟨id, hid, Directory.resolver_eq_ok (Directory.resolve_eq_ok.1 hid)⟩

/-- The settled expression compiles to the tree of the expression. -/
theorem compile_settled (hdepth : e.depth ≤ maxDepth)
    (hcompiles : ∀ c ∈ e.comparisons, c.Resolved d.resolve ∧ ¬ c.IsRefused variant) (s : σ) :
    (e.settled d).compile d.resolver variant s =
      .ok (e.outline.tree (Comparison.lowered d.resolve)) s := by
  have hsame : ∀ c ∈ e.outline.comparisons,
      (c.settled d.leastName).lowered d.resolve = c.lowered d.resolve := by
    intro c hc
    rw [comparisons_outline] at hc
    refine Comparison.lowered_settled fun source hsource => ?_
    obtain ⟨id, hid⟩ := (hcompiles c hc).1 source hsource
    have hleast := Directory.isLeastName_leastName (Directory.resolve_eq_ok.1 hid)
    rw [hid, Directory.resolve_eq_ok.2 hleast.found]
  have hsettled : ∀ c ∈ (e.settled d).comparisons,
      c.Resolved d.resolve ∧ ¬ c.IsRefused variant := by
    intro c' hc'
    rw [settled, comparisons_mapComparisons] at hc'
    obtain ⟨c, hc, rfl⟩ := List.mem_map.1 hc'
    refine ⟨fun source hsource => ?_, (hcompiles c hc).2⟩
    rw [Comparison.source?_settled] at hsource
    obtain ⟨first, hfirst, rfl⟩ := Option.map_eq_some_iff.1 hsource
    obtain ⟨id, hid⟩ := (hcompiles c hc).1 first hfirst
    have hleast := Directory.isLeastName_leastName (Directory.resolve_eq_ok.1 hid)
    exact ⟨id, Directory.resolve_eq_ok.2 hleast.found⟩
  rw [compile_eq_ok (by rwa [settled, depth_mapComparisons]) hsettled, settled,
    outline_mapComparisons, Outline.tree_map, Outline.tree_congr hsame]

/-- A tree compiled from a text is rendered to a text of the settled expression, and that compiles
to the tree again. -/
theorem compile_render_compile {text : String} {t : Tree} {s s' : σ} (hparse : parse text = .ok e)
    (hcompile : e.compile d.resolver variant s = .ok t s') :
    ∃ rendered, t.render d.inverse.resolver s' = .ok rendered s' ∧
      parse rendered = .ok (e.settled d) ∧
      (e.settled d).compile d.resolver variant s' = .ok t s' ∧
      ∀ c ∈ e.comparisons, ∀ source, c.source? = some source →
        ∃ id, d.find? source = some id ∧ d.IsLeastName id (d.leastName source) := by
  obtain ⟨hdepth, rfl, hcompiles⟩ := eq_tree_of_compile d.answers_resolver hcompile
  obtain ⟨rendered, hrender, hreparse⟩ := render_outline (isRegular_of_parse hparse) hdepth
    (fun c hc => (hcompiles c hc).1) s'
  refine ⟨rendered, hrender, hreparse, compile_settled hdepth hcompiles s', ?_⟩
  intro c hc source hsource
  obtain ⟨id, hid⟩ := (hcompiles c hc).1 source hsource
  have hfound := Directory.resolve_eq_ok.1 hid
  exact ⟨id, hfound, Directory.isLeastName_leastName hfound⟩

/-- A comparison beside a group, with a name that is not the smallest of its id and with both
operators for equality used the other way. -/
theorem compile_render_compile_alias :
    ∃ rendered,
      Tree.render (Directory.ofPairs [("HR", "7"), ("Employees", "7")]).inverse.resolver
          ⟨.and, [
            ⟨.or, [⟨.equals, ⟨.account, "attribute.a", some "7"⟩, .single "x"⟩]⟩,
            ⟨.or, [
              ⟨.equals, ⟨.identity, "attribute.b", none⟩, .list ["y", "z"]⟩,
              ⟨.equals, ⟨.identity, "attribute.c", none⟩, .single "O'Brien"⟩]⟩]⟩ () =
        .ok rendered () ∧
      parse rendered =
        .ok (.logical .and [
          .comparison ⟨.equal, ⟨.account "Employees", "a"⟩, .single "x"⟩,
          .logical .or [
            .comparison ⟨.oneOf, ⟨.identity, "b"⟩, .list ["y", "z"]⟩,
            .comparison ⟨.equal, ⟨.identity, "c"⟩, .single "O'Brien"⟩]]) := by
  have hparse :
      parse "HR.attribute.a in x and (identity.b eq (y, 'z') or identity.c eq O'Brien)" =
        .ok (.logical .and [
          .comparison ⟨.oneOf, ⟨.account "HR", "a"⟩, .single "x"⟩,
          .logical .or [
            .comparison ⟨.equal, ⟨.identity, "b"⟩, .list ["y", "z"]⟩,
            .comparison ⟨.equal, ⟨.identity, "c"⟩, .single "O'Brien"⟩]]) := by decide +kernel
  obtain ⟨rendered, hrender, hreparse, -⟩ := compile_render_compile
    (d := Directory.ofPairs [("HR", "7"), ("Employees", "7")]) (s := ()) hparse
    (Eq.refl (compile _ .role _ ()))
  exact ⟨rendered, hrender, hreparse⟩

end Expression

end Eligibility
