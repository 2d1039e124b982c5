import Eligibility.Proofs.RoundTrip
import Eligibility.Proofs.SourceNames
import Mathlib.Algebra.Order.BigOperators.Group.List
import Mathlib.Algebra.Order.Ring.Nat

/-!
# Rendered trees and canonical texts

An expression is written in two ways: its canonical text from the expression itself, and the text of
its tree from the three tiers that it was compiled to. Where the directory has one name for every id
and each operator is the one that is written back, the two texts are the same, but for one thing:
a tree of several groups shows each group in parentheses, also a comparison that stands there alone
(`Expression.compile_render_text`).
-/

namespace Eligibility

variable {σ : Type}

/-! ## The two texts -/

namespace Expression

/-- The parts that the connective at the root joins. -/
def operands : Expression → List Expression
  | .comparison _ => []
  | .logical _ children => children

/-- The canonical text of a part in a larger expression, in parentheses also if it is a comparison.
-/
def enclosedText : Expression → String
  | .comparison c => "(" ++ c.text ++ ")"
  | .logical op children => (logical op children).operandText

/-- The canonical text, in which every comparison beside a group is put in parentheses. -/
def groupedText : Expression → String
  | .comparison c => (comparison c).text
  | .logical op children =>
    if depthAll children = 0 then (logical op children).text
    else op.separator.intercalate (children.map enclosedText)

variable {op : Connective} {children : List Expression} {e : Expression}

theorem groupedText_of_flat (h : depthAll children = 0) :
    (logical op children).groupedText = (logical op children).text :=
  if_pos h

theorem groupedText_of_nested (h : depthAll children ≠ 0) :
    (logical op children).groupedText = op.separator.intercalate (children.map enclosedText) :=
  if_neg h

theorem groupText_of_flat (h : depthAll children = 0) :
    Outline.groupText (op, comparisonsAll children) = (logical op children).text := by
  rw [text, operandTexts_of_flat h, Outline.groupText]

theorem enclosedText_eq (op : Connective) (h : e.depth ≤ 1) :
    "(" ++ Outline.groupText (outlineGroup op e) ++ ")" = e.enclosedText := by
  cases e with
  | comparison c => simp [outlineGroup, Outline.groupText, enclosedText]
  | logical inner children =>
    rw [depth_logical] at h
    have hflat : depthAll children = 0 := by omega
    rw [outlineGroup, groupText_of_flat hflat, text, enclosedText, operandText]

/-- The outline of an expression is written like the expression, with parentheses around every
group. -/
theorem text_outline (hregular : e.IsRegular) (hdepth : e.depth ≤ maxDepth) :
    e.outline.text = e.groupedText := by
  cases e with
  | comparison c => simp [outline, Outline.text, Outline.groupText, groupedText, text]
  | logical op children =>
    obtain ⟨hlength, hchildren⟩ := isRegular_logical.1 hregular
    rw [depth_logical, maxDepth] at hdepth
    by_cases hflat : depthAll children = 0
    · rw [outline_flat hflat, groupedText_of_flat hflat, ← groupText_of_flat hflat]
      rfl
    · rw [outline_nested hflat, groupedText_of_nested hflat,
        Outline.text_several (by simpa using hlength), not_all_single hchildren hflat,
        if_neg Bool.false_ne_true, List.map_map]
      congr 1
      refine List.map_congr_left fun e he => enclosedText_eq op ?_
      have hshallow := depth_le_of_mem he
      omega

end Expression

/-! ## Where the texts differ -/

theorem length_intercalate (separator : String) {texts : List String} (h : texts ≠ []) :
    (separator.intercalate texts).length + separator.length =
      (texts.map fun text => text.length + separator.length).sum := by
  induction texts with
  | nil => exact absurd rfl h
  | cons text rest ih =>
    cases rest with
    | nil => simp
    | cons next rest =>
      have htail := ih (List.cons_ne_nil next rest)
      rw [String.intercalate_cons_cons, List.map_cons, List.sum_cons, ← htail]
      simp only [String.length_append]
      omega

/-- Joined texts are longer if none of them is shorter and one is longer. -/
theorem length_intercalate_lt {α : Type} (separator : String) {f g : α → String} {xs : List α}
    (hle : ∀ x ∈ xs, (f x).length ≤ (g x).length) (hlt : ∃ x ∈ xs, (f x).length < (g x).length) :
    (separator.intercalate (xs.map f)).length < (separator.intercalate (xs.map g)).length := by
  obtain ⟨x, hx, hlonger⟩ := hlt
  have hne : xs ≠ [] := List.ne_nil_of_mem hx
  have hf := length_intercalate separator (List.map_eq_nil_iff.not.2 hne : xs.map f ≠ [])
  have hg := length_intercalate separator (List.map_eq_nil_iff.not.2 hne : xs.map g ≠ [])
  have hsum : (xs.map fun x => (f x).length + separator.length).sum <
      (xs.map fun x => (g x).length + separator.length).sum :=
    List.sum_lt_sum _ _ (fun x hx => Nat.add_le_add_right (hle x hx) _)
      ⟨x, hx, Nat.add_lt_add_right hlonger _⟩
  simp only [List.map_map, Function.comp_def] at hf hg
  omega

namespace Expression

variable {e : Expression}

theorem length_enclosedText_of_isComparison (h : e.isComparison = true) :
    e.enclosedText.length = e.operandText.length + 2 := by
  cases e with
  | comparison c =>
    simp only [enclosedText, operandText, String.length_append, show "(".length = 1 from rfl,
      show ")".length = 1 from rfl]
    omega
  | logical op children => cases h

theorem enclosedText_of_not_isComparison (h : e.isComparison = false) :
    e.enclosedText = e.operandText := by
  cases e with
  | comparison c => cases h
  | logical op children => rfl

theorem length_operandText_le (e : Expression) : e.operandText.length ≤ e.enclosedText.length := by
  cases h : e.isComparison with
  | true =>
    rw [length_enclosedText_of_isComparison h]
    omega
  | false => rw [enclosedText_of_not_isComparison h]

/-- The texts differ if a comparison stands beside a group. -/
theorem groupedText_eq_text_iff :
    e.groupedText = e.text ↔ e.depth < 2 ∨ ∀ part ∈ e.operands, part.isComparison = false := by
  cases e with
  | comparison c => simp [groupedText, depth]
  | logical op children =>
    rw [depth_logical]
    by_cases hflat : depthAll children = 0
    · have hshallow : 1 + depthAll children < 2 := by omega
      simp [groupedText_of_flat hflat, hshallow]
    · have hdeep : ¬ 1 + depthAll children < 2 := by omega
      rw [groupedText_of_nested hflat, text, operandTexts_eq_map, operands, or_iff_right hdeep]
      constructor
      · -- a comparison among the operands makes the text longer, whatever the others are
        intro hsame part hpart
        refine Bool.eq_false_iff.2 fun hcomparison => ?_
        have hlonger : part.operandText.length < part.enclosedText.length := by
          rw [length_enclosedText_of_isComparison hcomparison]
          omega
        have hlt := length_intercalate_lt op.separator (fun x _ => length_operandText_le x)
          ⟨part, hpart, hlonger⟩
        rw [hsame] at hlt
        exact Nat.lt_irrefl _ hlt
      · intro hgroups
        congr 1
        exact List.map_congr_left fun part hpart =>
          enclosedText_of_not_isComparison (hgroups part hpart)

end Expression

/-! ## Nothing to settle -/

theorem Operator.settled_eq_self {op : Operator} {value : Literal}
    (h : op.predicate = .equals → (op = .oneOf ↔ value.isList = true)) :
    op.settled value = op := by
  unfold settled
  split
  · cases (h rfl).1 rfl
  · cases (h rfl).2 rfl
  · rfl

theorem Scope.mapSource_eq_self {name : String → String} {scope : Scope}
    (h : ∀ source, scope.source? = some source → name source = source) :
    scope.mapSource name = scope := by
  cases scope with
  | identity => rfl
  | account source => rw [mapSource, h source rfl]
  | entitlement source => rw [mapSource, h source rfl]

theorem Comparison.settled_eq_self {name : String → String} {c : Comparison}
    (hoperator : c.operator.predicate = .equals → (c.operator = .oneOf ↔ c.value.isList = true))
    (hname : ∀ source, c.source? = some source → name source = source) : c.settled name = c := by
  rw [settled, Operator.settled_eq_self hoperator, Scope.mapSource_eq_self hname]

theorem Directory.leastName_eq_self {d : Directory} {name id : String}
    (hfound : d.find? name = some id)
    (hunique : ∀ other, d.find? other = some id → other = name) : d.leastName name = name :=
  hunique _ (isLeastName_leastName hfound).found

namespace Expression

variable {d : Directory} {e : Expression}

/-- An expression whose operators are the written ones compiles, over a directory without aliases
that has its sources, and its tree is rendered to the canonical text with parentheses around every
group. That is the canonical text unless a comparison stands beside a group. -/
theorem compile_render_text (hregular : e.IsRegular) (hdepth : e.depth ≤ 2)
    (hoperators : ∀ c ∈ e.comparisons,
      c.operator.predicate = .equals → (c.operator = .oneOf ↔ c.value.isList = true))
    (hknown : ∀ name ∈ e.sourceNames, d.contains name = true)
    (hunique : ∀ name other id, d.find? name = some id → d.find? other = some id → other = name)
    (s : σ) :
    ∃ tree, e.compile d.resolver .role s = .ok tree s ∧
      tree.render d.inverse.resolver s = .ok e.groupedText s ∧
      (e.groupedText = e.text ↔
        e.depth < 2 ∨ ∀ part ∈ e.operands, part.isComparison = false) := by
  have hresolved := forall_resolved_iff.2 hknown
  have hcompile : e.compile d.resolver .role s =
      .ok (e.outline.tree (Comparison.lowered d.resolve)) s :=
    compile_eq_ok hdepth (fun c hc => ⟨hresolved c hc, c.not_isRefused_role⟩) s
  refine ⟨_, hcompile, ?_, groupedText_eq_text_iff⟩
  have hsettled : e.settled d = e := by
    refine mapComparisons_eq_self fun c hc => ?_
    refine Comparison.settled_eq_self (hoperators c hc) fun source hsource => ?_
    obtain ⟨id, hid⟩ := hresolved c hc source hsource
    have hfound := Directory.resolve_eq_ok.1 hid
    exact Directory.leastName_eq_self hfound fun other hother => hunique _ _ _ hfound hother
  rw [render_tree_outline hregular hresolved, hsettled, text_outline hregular hdepth]

/-- A comparison beside a group, with quotes in a source and in a value. -/
theorem compile_render_text_beside :
    ∃ tree, compile (Directory.ofPairs [("HR", "7"), ("O'Brien", "8")]).resolver .role
        (.logical .and [
          .comparison ⟨.equal, ⟨.account "O'Brien", "a"⟩, .single "x"⟩,
          .logical .or [
            .comparison ⟨.oneOf, ⟨.identity, "b"⟩, .list ["y", ""]⟩,
            .comparison ⟨.lacks, ⟨.entitlement "HR", "c d"⟩, .list ["'z'"]⟩]]) () = .ok tree () ∧
      tree.render (Directory.ofPairs [("HR", "7"), ("O'Brien", "8")]).inverse.resolver () =
        .ok ("('O''Brien'.attribute.a eq 'x') and " ++
          "(identity.b in ('y','') or 'HR'.entitlement.'c d' nc ('''z'''))") () ∧
      "'O''Brien'.attribute.a eq 'x' and " ++
          "(identity.b in ('y','') or 'HR'.entitlement.'c d' nc ('''z'''))" =
        text (.logical .and [
          .comparison ⟨.equal, ⟨.account "O'Brien", "a"⟩, .single "x"⟩,
          .logical .or [
            .comparison ⟨.oneOf, ⟨.identity, "b"⟩, .list ["y", ""]⟩,
            .comparison ⟨.lacks, ⟨.entitlement "HR", "c d"⟩, .list ["'z'"]⟩]]) := by
  have hentries : (Directory.ofPairs [("HR", "7"), ("O'Brien", "8")]).entries =
      [("HR", "7"), ("O'Brien", "8")] := by decide +kernel
  have hunique : ∀ name other id,
      (Directory.ofPairs [("HR", "7"), ("O'Brien", "8")]).find? name = some id →
      (Directory.ofPairs [("HR", "7"), ("O'Brien", "8")]).find? other = some id →
        other = name := by
    intro name other id hname hother
    rw [Directory.find?_eq_some_iff, hentries] at hname hother
    grind
  obtain ⟨tree, hcompile, hrender, -⟩ := compile_render_text
    (e := .logical .and [
      .comparison ⟨.equal, ⟨.account "O'Brien", "a"⟩, .single "x"⟩,
      .logical .or [
        .comparison ⟨.oneOf, ⟨.identity, "b"⟩, .list ["y", ""]⟩,
        .comparison ⟨.lacks, ⟨.entitlement "HR", "c d"⟩, .list ["'z'"]⟩]])
    (by simp [IsRegular, AllRegular]) (by decide +kernel) (by decide +kernel) (by decide +kernel)
    hunique ()
  exact ⟨tree, hcompile, hrender, by decide +kernel⟩

end Expression

end Eligibility
