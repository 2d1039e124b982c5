import Eligibility.Expression.Printer
import Eligibility.Proofs.Levels

/-!
# Canonical texts

The canonical text of an expression is one of its spellings, so it is read back as the same
expression, whatever characters the names and values in it are made of.
-/

namespace Eligibility

/-! ## Tokens -/

theorem toList_quoted (text : String) :
    (quoted text).toList = '\'' :: doubled '\'' text.toList ++ ['\''] := by
  simp [quoted]

theorem spellsQuoted_quoted (text : String) : SpellsQuoted text (quoted text).toList := by
  rw [toList_quoted]
  exact .mk '\'' rfl

theorem quotesInside_of_noQuote {text : List Char} (h : ∀ c ∈ text, isQuote c = false)
    (previous : Option Char) : QuotesInside previous text := by
  induction text generalizing previous with
  | nil => trivial
  | cons c text ih =>
    refine ⟨fun hquote => ?_, ih (fun d hd => h d (List.mem_cons_of_mem _ hd)) _⟩
    rw [h c List.mem_cons_self] at hquote
    cases hquote

theorem spellsWord_propertyText (property : String) :
    SpellsWord property (propertyText property).toList := by
  unfold propertyText
  split
  · exact .quoted (spellsQuoted_quoted property)
  · rename_i hplain
    simp only [Bool.or_eq_true, not_or, List.isEmpty_iff, List.any_eq_true, not_exists,
      not_and] at hplain
    have hspecial : ∀ c ∈ property.toList, isDelimiter c = false ∧ isQuote c = false := by
      intro c hc
      simpa using hplain.2 c hc
    exact .bare ⟨hplain.1, fun c hc => (hspecial c hc).1,
      quotesInside_of_noQuote (fun c hc => (hspecial c hc).2) none⟩

theorem spellsDot_self : SpellsDot ['.'] := .mk allBlank_nil allBlank_nil

/-! ## Comparisons -/

theorem spellsAttribute_text (a : Attribute) : SpellsAttribute a a.text.toList := by
  obtain ⟨scope, property⟩ := a
  have hproperty := spellsWord_propertyText property
  cases scope with
  | identity =>
    have h := SpellsAttribute.identity (spellsKeyword_self isPlain_identity) spellsDot_self
      hproperty
    have htext : (Attribute.text ⟨.identity, property⟩).toList =
        "identity".toList ++ ['.'] ++ (propertyText property).toList := by
      simp [Attribute.text]
    rwa [htext]
  | account source =>
    have h := SpellsAttribute.account (.quoted (spellsQuoted_quoted source)) spellsDot_self
      (spellsKeyword_self isPlain_attribute) spellsDot_self hproperty
    have htext : (Attribute.text ⟨.account source, property⟩).toList =
        (quoted source).toList ++ ['.'] ++ "attribute".toList ++ ['.'] ++
          (propertyText property).toList := by
      simp [Attribute.text]
    rwa [htext]
  | entitlement source =>
    have h := SpellsAttribute.entitlement (.quoted (spellsQuoted_quoted source)) spellsDot_self
      (spellsKeyword_self isPlain_entitlement) spellsDot_self hproperty
    have htext : (Attribute.text ⟨.entitlement source, property⟩).toList =
        (quoted source).toList ++ ['.'] ++ "entitlement".toList ++ ['.'] ++
          (propertyText property).toList := by
      simp [Attribute.text]
    rwa [htext]

theorem spellsValues_quoted : ∀ {values : List String}, values ≠ [] →
    SpellsValues values (",".intercalate (values.map quoted)).toList
  | [x], _ => by
    have h := SpellsValues.last allBlank_nil (.quoted (spellsQuoted_quoted x)) allBlank_nil
    simpa using h
  | x :: y :: rest, _ => by
    have htail := spellsValues_quoted (List.cons_ne_nil y rest)
    have h := SpellsValues.cons allBlank_nil (.quoted (spellsQuoted_quoted x)) allBlank_nil htail
    simpa using h

theorem spellsLiteral_text {l : Literal} (h : l ≠ .list []) : SpellsLiteral l l.text.toList := by
  cases l with
  | single value => exact .single (.quoted (spellsQuoted_quoted value))
  | list values =>
    have hne : values ≠ [] := by
      rintro rfl
      exact h rfl
    have htext : (Literal.list values).text.toList =
        '(' :: (",".intercalate (values.map quoted)).toList ++ [')'] := by
      simp [Literal.text]
    rw [htext]
    exact .list (spellsValues_quoted hne)

theorem spellsComparison_text {c : Comparison} (h : c.value ≠ .list []) :
    SpellsComparison c c.text.toList := by
  have htext : c.text.toList =
      c.subject.text.toList ++ [' '] ++ c.operator.keyword.toList ++ [' '] ++
        c.value.text.toList := by
    simp [Comparison.text]
  rw [htext]
  exact .mk (spellsAttribute_text c.subject) allBlank_space (by simp)
    (spellsKeyword_self c.operator.isPlain_keyword) allBlank_space (.inl (by simp))
    (spellsLiteral_text h)

/-! ## Expressions -/

/-- Spelled operands joined by separators are a sequence. -/
theorem spellsSequence_intercalate (op : Connective) {text : Expression → String} :
    ∀ {es : List Expression}, es ≠ [] →
      (∀ e ∈ es, ∃ closed, SpellsOperand e closed (text e).toList) →
      SpellsSequence op es (op.separator.intercalate (es.map text)).toList
  | [e], _, h => by
    obtain ⟨closed, he⟩ := h e List.mem_cons_self
    have hlast : SpellsSequence op [e] (text e).toList := .last he
    simpa using hlast
  | e :: e' :: es, _, h => by
    obtain ⟨closed, he⟩ := h e List.mem_cons_self
    have htail := spellsSequence_intercalate op (List.cons_ne_nil e' es)
      fun x hx => h x (List.mem_cons_of_mem e hx)
    have hsequence := SpellsSequence.cons he allBlank_space (.inl (by simp))
      (spellsKeyword_self op.isPlain_keyword) allBlank_space (.inl (by simp)) htail
    simpa [Connective.separator] using hsequence

theorem Expression.operandTexts_eq_map (es : List Expression) :
    operandTexts es = es.map operandText := by
  induction es with
  | nil => simp [operandTexts]
  | cons e es ih => simp [operandTexts, ih]

mutual

theorem spellsOperand_text : ∀ {e : Expression}, e.IsRegular →
    ∃ closed, SpellsOperand e closed e.operandText.toList
  | .comparison c, h => by
    have hc : c.value ≠ .list [] := by simpa [Expression.IsRegular] using h
    exact ⟨_, .comparison (spellsComparison_text hc)⟩
  | .logical op children, h => by
    have hinside := spells_logical op children (by simpa [Expression.IsRegular] using h)
    have htext : (Expression.logical op children).operandText.toList =
        '(' :: (op.separator.intercalate (Expression.operandTexts children)).toList ++ [')'] := by
      simp [Expression.operandText]
    rw [htext]
    exact ⟨true, .group hinside⟩

theorem spells_logical : ∀ (op : Connective) (children : List Expression),
    2 ≤ children.length ∧ Expression.AllRegular children → Spells (.logical op children)
      (op.separator.intercalate (Expression.operandTexts children)).toList
  | op, children, h => by
    have hne : children ≠ [] := by
      rintro rfl
      simp at h
    rw [Expression.operandTexts_eq_map]
    have hsequence := spellsSequence_intercalate op hne (spellsOperands_text h.2)
    simpa using Spells.logical h.1 allBlank_nil hsequence allBlank_nil

theorem spellsOperands_text : ∀ {es : List Expression}, Expression.AllRegular es →
    ∀ e ∈ es, ∃ closed, SpellsOperand e closed e.operandText.toList
  | e :: es, h, x, hx => by
    rw [Expression.AllRegular] at h
    by_cases heq : x = e
    · rw [heq]
      exact spellsOperand_text h.1
    · exact spellsOperands_text h.2 x (List.mem_of_ne_of_mem heq hx)

end

/-- The canonical text of a regular expression is one of its spellings. -/
theorem spells_text {e : Expression} (h : e.IsRegular) : Spells e e.text.toList := by
  cases e with
  | comparison c =>
    have hc : c.value ≠ .list [] := by simpa [Expression.IsRegular] using h
    simpa [Expression.text] using
      Spells.operand allBlank_nil (.comparison (spellsComparison_text hc)) allBlank_nil
  | logical op children =>
    simpa [Expression.text] using
      spells_logical op children (by simpa [Expression.IsRegular] using h)

/-- Reading gives back every regular expression from its canonical text. -/
theorem Expression.parse_text (e : Expression) (h : e.IsRegular) : parse e.text = .ok e :=
  Level.parse_of_spells (spells_text h) 0

/-- Sources, properties and values that look like parts of a rule, under three connectives. -/
theorem Expression.parse_text_punctuation :
    parse (Expression.text (.logical .or [
        .comparison ⟨.lacks, ⟨.account "identity", "a.b"⟩, .single ""⟩,
        .logical .and [
          .comparison ⟨.oneOf, ⟨.entitlement "O'Brien", ""⟩, .list ["', (", "and", ""]⟩,
          .logical .or [
            .comparison ⟨.equal, ⟨.identity, " or "⟩, .single ")'"⟩,
            .comparison ⟨.equal, ⟨.identity, "\""⟩, .single "''"⟩]]])) =
      .ok (.logical .or [
        .comparison ⟨.lacks, ⟨.account "identity", "a.b"⟩, .single ""⟩,
        .logical .and [
          .comparison ⟨.oneOf, ⟨.entitlement "O'Brien", ""⟩, .list ["', (", "and", ""]⟩,
          .logical .or [
            .comparison ⟨.equal, ⟨.identity, " or "⟩, .single ")'"⟩,
            .comparison ⟨.equal, ⟨.identity, "\""⟩, .single "''"⟩]]]) :=
  parse_text _ (by simp [Expression.IsRegular, Expression.AllRegular])

end Eligibility
