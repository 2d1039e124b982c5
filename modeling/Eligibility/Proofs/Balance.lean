import Eligibility.Proofs.Comparisons

/-!
# Spellings are well nested

In a spelling, all parentheses outside of quoted strings balance, and every quote that seems to open
a string does open one. The two predicates below are what this is proved by: a rest of a text that
may stand where a token begins, and one that may stand anywhere because it does not begin with a
quote. Both are carried through a text from its end to its start, symbol by symbol.
-/

namespace Eligibility

/-- A well-nested rest of a text at a place where a token may begin. -/
def NestedAtToken (depth : Nat) (text : List Char) : Prop :=
  ∀ previous, QuotePlace previous → Nested previous depth text

/-- A well-nested rest of a text that may stand after any character. -/
structure NestedAnywhere (depth : Nat) (text : List Char) : Prop where
  /-- It does not begin with a quote, so the character before it does not matter. -/
  head : ∀ c ∈ text.head?, isQuote c = false
  /-- It is well nested. -/
  nested : ∀ previous, Nested previous depth text

variable {depth : Nat} {rest : List Char}

theorem NestedAnywhere.atToken {text : List Char} (h : NestedAnywhere depth text) :
    NestedAtToken depth text :=
  fun previous _ => h.nested previous

/-- The character before a text matters only if the text begins with a quote. -/
theorem NestedAtToken.anywhere {text : List Char} (h : NestedAtToken depth text)
    (hhead : ∀ c ∈ text.head?, isQuote c = false) : NestedAnywhere depth text where
  head := hhead
  nested := fun previous => by
    cases h none quotePlace_none with
    | nil => exact .nil
    | opening htext => exact .opening htext
    | closing htext => exact .closing htext
    | quoted inner hquote =>
      rw [hhead _ rfl] at hquote
      cases hquote
    | other hc _ htext => exact .other hc (by simp [hhead _ rfl]) htext

theorem nestedAnywhere_nil : NestedAnywhere 0 [] := ⟨by simp, fun _ => .nil⟩

/-! ## Characters that are not quotes -/

theorem nestedAnywhere_cons {c : Char} (hc : c ≠ '(' ∧ c ≠ ')') (hquote : isQuote c = false)
    (h : Nested (some c) depth rest) : NestedAnywhere depth (c :: rest) where
  head := by simpa using hquote
  nested := fun _ => .other hc (by simp [hquote]) h

theorem nestedAnywhere_plain {w : List Char}
    (hw : ∀ c ∈ w, isDelimiter c = false ∧ isQuote c = false) (h : NestedAnywhere depth rest) :
    NestedAnywhere depth (w ++ rest) := by
  induction w with
  | nil => exact h
  | cons c w ih =>
    have hc := hw c List.mem_cons_self
    refine nestedAnywhere_cons ?_ hc.2
      ((ih fun d hd => hw d (List.mem_cons_of_mem _ hd)).nested (some c))
    constructor
    · rintro rfl
      cases hc.1
    · rintro rfl
      cases hc.1

/-! ## Separators -/

/-- After a delimiter or a comma a token may begin. -/
theorem nestedAnywhere_separator {c : Char} (hc : c ≠ '(' ∧ c ≠ ')')
    (hplace : isDelimiter c = true ∨ c = ',') (h : NestedAtToken depth rest) :
    NestedAnywhere depth (c :: rest) := by
  have hquote : isQuote c = false := by
    rcases hplace with hdelimiter | rfl
    · exact not_isQuote_of_isDelimiter hdelimiter
    · rfl
  exact nestedAnywhere_cons hc hquote (h _ (quotePlace_some.2 hplace))

theorem nestedAnywhere_blank {c : Char} (hc : isBlank c = true) (h : NestedAtToken depth rest) :
    NestedAnywhere depth (c :: rest) :=
  nestedAnywhere_separator (ne_parenthesis_of_isBlank hc) (.inl (isDelimiter_of_isBlank hc)) h

theorem nestedAtToken_blanks {u : List Char} (hu : AllBlank u) (h : NestedAtToken depth rest) :
    NestedAtToken depth (u ++ rest) := by
  induction u with
  | nil => exact h
  | cons c u ih =>
    have hrest := ih fun d hd => hu d (List.mem_cons_of_mem _ hd)
    exact (nestedAnywhere_blank (hu c List.mem_cons_self) hrest).atToken

theorem nestedAnywhere_blanks {u : List Char} (hu : AllBlank u) (h : NestedAtToken depth rest)
    (hne : u ≠ [] ∨ NestedAnywhere depth rest) : NestedAnywhere depth (u ++ rest) := by
  cases u with
  | nil => simpa using hne
  | cons c u =>
    have hrest := nestedAtToken_blanks (u := u) (fun d hd => hu d (List.mem_cons_of_mem _ hd)) h
    exact nestedAnywhere_blank (hu c List.mem_cons_self) hrest

theorem nestedAnywhere_dot {d : List Char} (hd : SpellsDot d) (h : NestedAtToken depth rest) :
    NestedAnywhere depth (d ++ rest) := by
  obtain ⟨hu, hv⟩ := hd
  rename_i u v
  have hdot : NestedAnywhere depth ('.' :: (v ++ rest)) :=
    nestedAnywhere_separator (by decide) (.inl rfl) (nestedAtToken_blanks hv h)
  rw [List.append_assoc]
  exact nestedAnywhere_blanks hu hdot.atToken (.inr hdot)

theorem nestedAnywhere_keyword {keyword : String} {w : List Char} (hw : SpellsKeyword keyword w)
    (hplain : IsPlain keyword) (h : NestedAnywhere depth rest) : NestedAnywhere depth (w ++ rest) :=
  nestedAnywhere_plain (hw.plain hplain) h

/-- A pair of parentheses around what is well nested. -/
theorem nestedAnywhere_parentheses {t : List Char}
    (h : NestedAtToken (depth + 1) (t ++ ')' :: rest)) :
    NestedAnywhere depth ('(' :: t ++ [')'] ++ rest) where
  head := by simp; rfl
  nested := fun _ => by
    simpa using Nested.opening (h _ (quotePlace_some.2 (.inl rfl)))

theorem nestedAnywhere_closing (h : NestedAnywhere depth rest) :
    NestedAnywhere (depth + 1) (')' :: rest) where
  head := by simp; rfl
  nested := fun _ => .closing (h.nested _)

/-! ## Words -/

theorem nestedAtToken_quoted {x : String} {w : List Char} (hw : SpellsQuoted x w)
    (h : NestedAnywhere depth rest) : NestedAtToken depth (w ++ rest) := by
  intro previous hprevious
  obtain ⟨quote, hquote⟩ := hw
  have hend : rest.head? ≠ some quote := by
    intro hhead
    rw [h.head quote hhead] at hquote
    cases hquote
  simpa using Nested.quoted x.toList hquote hprevious hend (h.nested (some quote))

theorem nested_quotesInside {w : List Char} (hw : ∀ c ∈ w, c ≠ '(' ∧ c ≠ ')')
    (h : NestedAnywhere depth rest) :
    ∀ {previous : Option Char}, QuotesInside previous w → Nested previous depth (w ++ rest) := by
  induction w with
  | nil => exact fun _ => h.nested _
  | cons c w ih =>
    intro previous hquotes
    exact .other (hw c List.mem_cons_self) hquotes.1
      (ih (fun d hd => hw d (List.mem_cons_of_mem _ hd)) hquotes.2)

/-- Where a quote may begin a string after some character, it may begin one at the start. -/
theorem QuotesInside.anyStart {w : List Char} (h : QuotesInside none w) (previous : Option Char) :
    QuotesInside previous w := by
  cases w with
  | nil => trivial
  | cons c w => exact ⟨fun hquote => absurd quotePlace_none (h.1 hquote), h.2⟩

theorem nestedAtToken_bareWord {w : List Char} (hw : BareWord w) (h : NestedAnywhere depth rest) :
    NestedAtToken depth (w ++ rest) := by
  have hparentheses : ∀ c ∈ w, c ≠ '(' ∧ c ≠ ')' := by
    intro c hc
    have hdelimiter := hw.noDelimiter c hc
    constructor
    all_goals rintro rfl; cases hdelimiter
  exact fun previous _ => nested_quotesInside hparentheses h (hw.quotesInside.anyStart previous)

theorem nestedAtToken_word {x : String} {w : List Char} (hw : SpellsWord x w)
    (h : NestedAnywhere depth rest) : NestedAtToken depth (w ++ rest) := by
  cases hw with
  | quoted hw => exact nestedAtToken_quoted hw h
  | bare hw => exact nestedAtToken_bareWord hw h

theorem nestedAtToken_source {x : String} {w : List Char} (hw : SpellsSource x w)
    (h : NestedAnywhere depth rest) : NestedAtToken depth (w ++ rest) := by
  cases hw with
  | quoted hw => exact nestedAtToken_quoted hw h
  | bare hw => exact nestedAtToken_bareWord hw h

theorem nestedAtToken_element {x : String} {w : List Char} (hw : SpellsElement x w)
    (h : NestedAnywhere depth rest) : NestedAtToken depth (w ++ rest) := by
  cases hw with
  | quoted hw => exact nestedAtToken_quoted hw h
  | bare hw =>
    exact fun previous _ => nested_quotesInside (fun c hc => (hw.noSeparator c hc).2) h
      (hw.quotesInside.anyStart previous)

/-! ## Comparisons -/

theorem nestedAtToken_attribute {a : Attribute} {w : List Char} (hw : SpellsAttribute a w)
    (h : NestedAnywhere depth rest) : NestedAtToken depth (w ++ rest) := by
  cases hw with
  | identity hk hd hp =>
    have hdot := nestedAnywhere_dot hd (nestedAtToken_word hp h)
    simpa using (nestedAnywhere_keyword hk isPlain_identity hdot).atToken
  | account hs hd hk hd' hp =>
    have hdot := nestedAnywhere_dot hd' (nestedAtToken_word hp h)
    have hkind := nestedAnywhere_dot hd (nestedAnywhere_keyword hk isPlain_attribute hdot).atToken
    simpa using nestedAtToken_source hs hkind
  | entitlement hs hd hk hd' hp =>
    have hdot := nestedAnywhere_dot hd' (nestedAtToken_word hp h)
    have hkind := nestedAnywhere_dot hd (nestedAnywhere_keyword hk isPlain_entitlement hdot).atToken
    simpa using nestedAtToken_source hs hkind

theorem nestedAtToken_values {xs : List String} {t : List Char} (ht : SpellsValues xs t)
    (h : NestedAnywhere depth rest) : NestedAtToken depth (t ++ rest) := by
  induction ht with
  | last hu hw hv =>
    have hend := nestedAnywhere_blanks hv h.atToken (.inr h)
    simpa using nestedAtToken_blanks hu (nestedAtToken_element hw hend)
  | cons hu hw hv _ ih =>
    have hcomma := nestedAnywhere_separator (c := ',') (by decide) (.inr rfl) ih
    have hend := nestedAnywhere_blanks hv hcomma.atToken (.inr hcomma)
    simpa using nestedAtToken_blanks hu (nestedAtToken_element hw hend)

theorem nestedAnywhere_list {xs : List String} {t : List Char} (ht : SpellsValues xs t)
    (h : NestedAnywhere depth rest) : NestedAnywhere depth ('(' :: t ++ [')'] ++ rest) :=
  nestedAnywhere_parentheses (nestedAtToken_values ht (nestedAnywhere_closing h))

theorem nestedAtToken_literal {l : Literal} {w : List Char} (hw : SpellsLiteral l w)
    (h : NestedAnywhere depth rest) :
    NestedAtToken depth (w ++ rest) ∧ (l.isList = true → NestedAnywhere depth (w ++ rest)) := by
  cases hw with
  | single hw => exact ⟨nestedAtToken_word hw h, fun hlist => by cases hlist⟩
  | list ht => exact ⟨(nestedAnywhere_list ht h).atToken, fun _ => nestedAnywhere_list ht h⟩

theorem nestedAtToken_comparison {c : Comparison} {w : List Char} (hw : SpellsComparison c w)
    (h : NestedAnywhere depth rest) : NestedAtToken depth (w ++ rest) := by
  obtain ⟨ha, hu, hu', hk, hv, hv', hl⟩ := hw
  obtain ⟨hliteral, hlist⟩ := nestedAtToken_literal hl h
  have hvalue := nestedAnywhere_blanks hv hliteral (hv'.imp_right hlist)
  have hoperator := nestedAnywhere_keyword hk c.operator.isPlain_keyword hvalue
  have hrest := nestedAnywhere_blanks hu hoperator.atToken (.inr hoperator)
  simpa using nestedAtToken_attribute ha hrest

/-! ## Expressions -/

mutual

theorem nestedAtToken_operand : ∀ {depth : Nat} {rest : List Char} {e : Expression}
    {closed : Bool} {w : List Char}, SpellsOperand e closed w → NestedAnywhere depth rest →
    NestedAtToken depth (w ++ rest)
  | _, _, _, _, _, .comparison hw, h => nestedAtToken_comparison hw h
  | _, _, _, _, _, .group hw, h =>
    (nestedAnywhere_parentheses (nestedAtToken_spells hw (nestedAnywhere_closing h))).atToken

theorem nestedAtToken_sequence : ∀ {depth : Nat} {rest : List Char} {op : Connective}
    {es : List Expression} {w : List Char}, SpellsSequence op es w → NestedAnywhere depth rest →
    NestedAtToken depth (w ++ rest)
  | _, _, _, _, _, .last hw, h => nestedAtToken_operand hw h
  | _, rest, _, _, _, .cons (t := t) hw hu _ hk hv hv' ht, h => by
    have htail := nestedAtToken_sequence ht h
    have hopen : t.head? = some '(' → NestedAnywhere _ (t ++ rest) := fun hhead =>
      htail.anywhere (by simp [List.head?_append, hhead]; rfl)
    have hnext := nestedAnywhere_blanks hv htail (hv'.imp_right hopen)
    have hkeyword := nestedAnywhere_keyword hk (Connective.isPlain_keyword _) hnext
    simpa using nestedAtToken_operand hw (nestedAnywhere_blanks hu hkeyword.atToken (.inr hkeyword))

theorem nestedAtToken_spells : ∀ {depth : Nat} {rest : List Char} {e : Expression} {w : List Char},
    Spells e w → NestedAnywhere depth rest → NestedAtToken depth (w ++ rest)
  | _, _, _, _, .operand hu hw hv, h => by
    have hend := nestedAnywhere_blanks hv h.atToken (.inr h)
    simpa using nestedAtToken_blanks hu (nestedAtToken_operand hw hend)
  | _, _, _, _, .logical _ hu hw hv, h => by
    have hend := nestedAnywhere_blanks hv h.atToken (.inr h)
    simpa using nestedAtToken_blanks hu (nestedAtToken_sequence hw hend)

end

/-- Every spelling of an expression is well nested. -/
theorem Spells.wellNested {e : Expression} {w : List Char} (h : Spells e w) : WellNested w := by
  have hnested := nestedAtToken_spells h nestedAnywhere_nil none quotePlace_none
  rwa [List.append_nil] at hnested

end Eligibility
