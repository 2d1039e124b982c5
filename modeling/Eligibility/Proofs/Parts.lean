import Eligibility.Proofs.SpelledTexts

/-!
# The parts of an expression that is read

An expression is regular if none of its parts, at whatever depth, is degenerate: no connective over
fewer than two parts, and no empty list of values. These are the expressions that texts denote. For
every other expression, the canonical text is not read back as it, be the degenerate part as deep
as it may.
-/

namespace Eligibility.Expression

/-- An expression stands somewhere in another one, or is it. -/
inductive Within : Expression → Expression → Prop where
  /-- The whole. -/
  | self (e : Expression) : Within e e
  /-- What stands in one of the parts that a connective joins. -/
  | child {x e : Expression} {op : Connective} {children : List Expression} (he : e ∈ children)
      (h : Within x e) : Within x (.logical op children)

/-- Looked at without the parts below it, the expression is nothing that a text denotes. -/
def IsDegenerate : Expression → Prop
  | .comparison c => c.value = .list []
  | .logical _ children => children.length < 2

theorem IsRegular.not_isDegenerate {e : Expression} (h : e.IsRegular) : ¬ e.IsDegenerate := by
  cases e with
  | comparison c =>
    rw [IsRegular] at h
    exact h
  | logical op children => exact Nat.not_lt.2 (isRegular_logical.1 h).1

/-- What stands in a regular expression is regular. -/
theorem IsRegular.of_within {x e : Expression} (h : e.IsRegular) (hx : Within x e) :
    x.IsRegular := by
  induction hx with
  | self => exact h
  | child he _ ih => exact ih ((isRegular_logical.1 h).2 _ he)

/-- An expression without degenerate parts is regular. -/
theorem isRegular_of_within : ∀ {e : Expression},
    (∀ x, Within x e → ¬ x.IsDegenerate) → e.IsRegular
  | .comparison c, h => by
    rw [IsRegular]
    exact h _ (.self _)
  | .logical op children, h => by
    refine isRegular_logical.2 ⟨Nat.not_lt.1 (h _ (.self _)), fun e he => ?_⟩
    exact isRegular_of_within fun x hx => h x (.child he hx)

theorem isRegular_iff_within {e : Expression} :
    e.IsRegular ↔ ∀ x, Within x e → ¬ x.IsDegenerate :=
  ⟨fun h _ hx => (h.of_within hx).not_isDegenerate, isRegular_of_within⟩

/-- The canonical text is read back if the expression is what some text denotes. -/
theorem parse_text_eq_iff {e : Expression} : parse e.text = .ok e ↔ e.IsRegular :=
  ⟨isRegular_of_parse, parse_text e⟩

/-- The expressions that are read are those without degenerate parts. Each of them is read back from
its canonical text, and no other expression is. -/
theorem exists_parse_iff (e : Expression) :
    ((∃ text, parse text = .ok e) ↔ ∀ x, Within x e → ¬ x.IsDegenerate) ∧
    (∀ text, parse text = .ok e → parse e.text = .ok e) ∧
    ((∃ x, Within x e ∧ x.IsDegenerate) ↔ parse e.text ≠ .ok e) := by
  refine ⟨?_, fun text h => parse_text e (isRegular_of_parse h), ?_⟩
  · rw [← isRegular_iff_within]
    exact ⟨fun ⟨_, h⟩ => isRegular_of_parse h, fun h => ⟨e.text, parse_text e h⟩⟩
  · rw [Ne, parse_text_eq_iff, isRegular_iff_within]
    simp

/-- A connective over one part, two levels down: the text is read without it. -/
theorem exists_parse_iff_degenerate :
    parse (text (.logical .or [
        .comparison ⟨.equal, ⟨.identity, "a"⟩, .single "x"⟩,
        .logical .and [
          .comparison ⟨.equal, ⟨.identity, "b"⟩, .single "y"⟩,
          .logical .or [.comparison ⟨.equal, ⟨.identity, "c"⟩, .single "z"⟩]]])) ≠
      .ok (.logical .or [
        .comparison ⟨.equal, ⟨.identity, "a"⟩, .single "x"⟩,
        .logical .and [
          .comparison ⟨.equal, ⟨.identity, "b"⟩, .single "y"⟩,
          .logical .or [.comparison ⟨.equal, ⟨.identity, "c"⟩, .single "z"⟩]]]) ∧
    parse (text (.comparison ⟨.equal, ⟨.identity, "a"⟩, .single "x"⟩)) =
      .ok (.comparison ⟨.equal, ⟨.identity, "a"⟩, .single "x"⟩) := by
  have hwithin : Within (.logical .or [.comparison ⟨.equal, ⟨.identity, "c"⟩, .single "z"⟩])
      (.logical .or [
        .comparison ⟨.equal, ⟨.identity, "a"⟩, .single "x"⟩,
        .logical .and [
          .comparison ⟨.equal, ⟨.identity, "b"⟩, .single "y"⟩,
          .logical .or [.comparison ⟨.equal, ⟨.identity, "c"⟩, .single "z"⟩]]]) :=
    .child (List.mem_cons_of_mem _ List.mem_cons_self)
      (.child (List.mem_cons_of_mem _ List.mem_cons_self) (.self _))
  have hread : parse "( identity.a EQ x )" =
      .ok (.comparison ⟨.equal, ⟨.identity, "a"⟩, .single "x"⟩) := by decide +kernel
  exact ⟨(exists_parse_iff _).2.2.1 ⟨_, hwithin, Nat.lt_add_one 1⟩,
    (exists_parse_iff _).2.1 _ hread⟩

end Eligibility.Expression
