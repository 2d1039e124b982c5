import Eligibility.Proofs.SpelledTexts
import Eligibility.Proofs.Symbols

/-!
# Parentheses of texts that are read

In a text that can be read, every parenthesis that closes has one that opens before it, and what is
left open in the end are exactly the parentheses that stand in list elements without quotes
(`Expression.depthAfter_of_parse`). A list element without quotes may hold a parenthesis that opens,
because it only ends at a comma or at a parenthesis that closes.

The count is carried through the text from its end to its start, symbol by symbol, for a rest of a
text that closes a given number of parentheses besides its own. `CountedAtToken` is about a rest at
a place where a quoted string may begin, `CountedAnywhere` about one that does not begin with a quote.
-/

namespace Eligibility

/-- The number of parentheses that are open after a text if so many are open before it. There is none
if a parenthesis closes that was never opened. -/
def depthAfter (depth : Nat) : List Char → Option Nat
  | [] => some depth
  | c :: rest =>
    if c = '(' then depthAfter (depth + 1) rest
    else if c = ')' then
      match depth with
      | 0 => none
      | depth + 1 => depthAfter depth rest
    else depthAfter depth rest

/-- Whether the parentheses outside of what looks like quoted strings balance. -/
def BalancedParentheses (text : List Char) : Prop :=
  depthAfter 0 (outsideStrings none text) = some 0

instance (text : List Char) : Decidable (BalancedParentheses text) :=
  inferInstanceAs (Decidable (_ = _))

section Depth

variable {depth : Nat} {rest : List Char}

theorem depthAfter_opening : depthAfter depth ('(' :: rest) = depthAfter (depth + 1) rest := rfl

theorem depthAfter_closing : depthAfter (depth + 1) (')' :: rest) = depthAfter depth rest := rfl

theorem depthAfter_cons {c : Char} (h : c ≠ '(' ∧ c ≠ ')') :
    depthAfter depth (c :: rest) = depthAfter depth rest := by
  simp [depthAfter, h]

/-- Where no parenthesis closes, those that open are counted. -/
theorem depthAfter_append {w : List Char} (h : ∀ c ∈ w, c ≠ ')') :
    depthAfter depth (w ++ rest) = depthAfter (depth + w.count '(') rest := by
  induction w generalizing depth with
  | nil => rfl
  | cons c w ih =>
    have hw : ∀ depth, depthAfter depth (w ++ rest) = depthAfter (depth + w.count '(') rest :=
      fun _ => ih fun d hd => h d (List.mem_cons_of_mem _ hd)
    by_cases hc : c = '('
    · rw [hc, List.cons_append, depthAfter_opening, hw, List.count_cons_self]
      congr 1
      omega
    · rw [List.cons_append, depthAfter_cons ⟨hc, h c List.mem_cons_self⟩, hw,
        List.count_cons_of_ne hc]

end Depth

/-- The number of parentheses that open in the bare symbols of a list. Tokens have none, so they
stand in elements of lists. -/
def openings (symbols : List Symbol) : Nat := (symbols.flatMap Symbol.bare).count '('

/-- Whether no quote in a bare symbol looks like the beginning of a quoted string. -/
def QuotesPlain (symbols : List Symbol) : Prop := ∀ s ∈ symbols, QuotesInside none s.bare

instance (symbols : List Symbol) : Decidable (QuotesPlain symbols) :=
  List.decidableBAll (fun s : Symbol => QuotesInside none s.bare) symbols

/-- A rest of a text at a place where a token may begin, which closes so many parentheses that are
open before it. -/
structure CountedAtToken (closings : Nat) (place : Place) (text : List Char) : Prop where
  /-- Outside of its quoted strings. -/
  bySymbols : ∀ depth, depthAfter (depth + closings) ((symbols place text).flatMap Symbol.outside) =
    some (depth + openings (symbols place text))
  /-- Outside of what looks like quoted strings. -/
  byStrings : QuotesPlain (symbols place text) → ∀ previous, QuotePlace previous →
    ∀ depth, depthAfter (depth + closings) (outsideStrings previous text) =
      some (depth + openings (symbols place text))

/-- A rest of a text that may stand after any character. -/
structure CountedAnywhere (closings : Nat) (place : Place) (text : List Char) : Prop extends
    CountedAtToken closings place text where
  /-- It does not begin with a quote, so the character before it does not matter. -/
  head : ∀ c ∈ text.head?, isQuote c = false

section Counted

variable {closings : Nat} {p : Place} {rest : List Char}

/-- The character before a text matters only if the text begins with a quote. -/
theorem CountedAnywhere.after (h : CountedAnywhere closings p rest)
    (hplain : QuotesPlain (symbols p rest)) (previous : Option Char) (depth : Nat) :
    depthAfter (depth + closings) (outsideStrings previous rest) =
      some (depth + openings (symbols p rest)) := by
  have hnone := h.byStrings hplain none quotePlace_none depth
  cases rest with
  | nil => rwa [outsideStrings_nil] at hnone ⊢
  | cons c rest =>
    have hquote : ∀ previous, isQuote c = true → ¬ QuotePlace previous := by
      intro previous hc
      rw [h.head c rfl] at hc
      cases hc
    rw [outsideStrings_cons (hquote _)] at hnone ⊢
    exact hnone

theorem countedAnywhere_nil : CountedAnywhere 0 p [] where
  bySymbols := fun depth => by simp [symbols_nil, depthAfter, openings]
  byStrings := fun _ _ _ depth => by simp [symbols_nil, outsideStrings_nil, depthAfter, openings]
  head := by simp

/-! ## Single symbols -/

theorem openings_cons (s : Symbol) (more : List Symbol) :
    openings (s :: more) = s.bare.count '(' + openings more := by
  simp [openings]

theorem openings_eq_zero {symbols : List Symbol} :
    openings symbols = 0 ↔ ∀ s ∈ symbols, '(' ∉ s.bare := by
  simp [openings, List.count_eq_zero]

theorem QuotesPlain.tail {s : Symbol} {more : List Symbol} (h : QuotesPlain (s :: more)) :
    QuotesPlain more := fun x hx => h x (List.mem_cons_of_mem _ hx)

/-- A character after which a quoted string may begin. -/
theorem countedAnywhere_mark {closings' : Nat} {q : Place} {c : Char}
    (hsymbols : symbols p (c :: rest) = .mark c :: symbols q rest)
    (hplace : isDelimiter c = true ∨ c = ',')
    (hdepth : ∀ depth text, depthAfter (depth + closings) (c :: text) =
      depthAfter (depth + closings') text)
    (h : CountedAtToken closings' q rest) : CountedAnywhere closings p (c :: rest) := by
  have hquote : isQuote c = false := by
    rcases hplace with hdelimiter | rfl
    · exact not_isQuote_of_isDelimiter hdelimiter
    · rfl
  have hopenings : openings (symbols p (c :: rest)) = openings (symbols q rest) := by
    rw [hsymbols, openings_cons]
    simp [Symbol.bare]
  refine ⟨⟨fun depth => ?_, fun hplain previous _ depth => ?_⟩, by simpa using hquote⟩
  · have hrest := h.bySymbols depth
    rw [hopenings, hsymbols, List.flatMap_cons]
    exact (hdepth depth _).trans hrest
  · rw [hsymbols] at hplain
    have hrest := h.byStrings hplain.tail (some c) (quotePlace_some.2 hplace) depth
    rw [hopenings, outsideStrings_cons (by simp [hquote]), hdepth]
    exact hrest

theorem countedAnywhere_blank {c : Char} (hc : isBlank c = true)
    (h : CountedAtToken closings p rest) : CountedAnywhere closings p (c :: rest) :=
  countedAnywhere_mark (symbols_blank hc) (.inl (isDelimiter_of_isBlank hc))
    (fun _ _ => depthAfter_cons (ne_parenthesis_of_isBlank hc)) h

theorem countedAtToken_blanks {u : List Char} (hu : AllBlank u)
    (h : CountedAtToken closings p rest) : CountedAtToken closings p (u ++ rest) := by
  induction u with
  | nil => exact h
  | cons c u ih =>
    have hrest := ih fun d hd => hu d (List.mem_cons_of_mem _ hd)
    exact (countedAnywhere_blank (hu c List.mem_cons_self) hrest).toCountedAtToken

theorem countedAnywhere_blanks {u : List Char} (hu : AllBlank u)
    (h : CountedAnywhere closings p rest) : CountedAnywhere closings p (u ++ rest) where
  toCountedAtToken := countedAtToken_blanks hu h.toCountedAtToken
  head := by
    cases u with
    | nil => exact h.head
    | cons c u => simpa using not_isQuote_of_isBlank (hu c List.mem_cons_self)

theorem countedAtToken_quoted {x : String} {s : List Char} (hx : DerivesQuoted x s rest)
    (h : CountedAnywhere closings p.afterString rest) : CountedAtToken closings p s := by
  obtain ⟨hu, hquote, hrest⟩ := hx
  rename_i u quote
  have hinside := unquote_doubled hrest x.toList
  have hsymbols := symbols_quoted (p := p) hquote hinside
  have hopenings : openings (symbols p (quote :: (doubled quote x.toList ++ quote :: rest))) =
      openings (symbols p.afterString rest) := by
    rw [hsymbols, openings_cons]
    simp [Symbol.bare]
  simp only [List.append_assoc, List.cons_append, List.nil_append]
  refine countedAtToken_blanks hu ⟨fun depth => ?_, fun hplain previous hplace depth => ?_⟩
  · have hafter := h.bySymbols depth
    rw [hopenings, hsymbols]
    exact hafter
  · rw [hsymbols] at hplain
    rw [hopenings, outsideStrings_quoted hquote hplace hinside]
    exact h.after hplain.tail (some quote) depth

/-- Characters without quotes, up to one that ends them. -/
theorem countedAnywhere_bare {w : List Char} (hne : w ≠ [])
    (hhead : ∀ c ∈ w.head?, isBlank c = false ∧ isQuote c = false)
    (hw : ∀ c ∈ w, p.isMark c = false) (hclosing : ∀ c ∈ w, c ≠ ')')
    (hrest : ∀ c ∈ rest.head?, p.isMark c = true ∧ isQuote c = false)
    (h : CountedAtToken closings (p.afterBare w) rest) :
    CountedAnywhere closings p (w ++ rest) := by
  have hanywhere : CountedAnywhere closings (p.afterBare w) rest :=
    ⟨h, fun c hc => (hrest c hc).2⟩
  have hsymbols := symbols_bare hne hhead hw fun c hc => (hrest c hc).1
  have hbare : (p.bareSymbol w).bare = w := by cases p <;> rfl
  have houtside : (p.bareSymbol w).outside = w := by cases p <;> rfl
  have hopenings : openings (symbols p (w ++ rest)) =
      w.count '(' + openings (symbols (p.afterBare w) rest) := by
    rw [hsymbols, openings_cons, hbare]
  refine ⟨⟨fun depth => ?_, fun hplain previous _ depth => ?_⟩, ?_⟩
  · have hafter := h.bySymbols (depth + w.count '(')
    rw [hopenings, hsymbols, List.flatMap_cons, houtside, depthAfter_append hclosing,
      Nat.add_right_comm, hafter, Nat.add_assoc]
  · rw [hsymbols] at hplain
    have hquotes := hplain _ List.mem_cons_self
    rw [hbare] at hquotes
    obtain ⟨last, hlast⟩ := outsideStrings_append (hquotes.anyStart previous) rest
    have hafter := hanywhere.after hplain.tail last (depth + w.count '(')
    rw [hopenings, hlast, depthAfter_append hclosing, Nat.add_right_comm, hafter, Nat.add_assoc]
  · obtain ⟨c, w, rfl⟩ := List.exists_cons_of_ne_nil hne
    simpa using (hhead c rfl).2

end Counted

/-! ## Tokens and marks -/

section Tokens

variable {closings : Nat} {b : Bool} {s t : List Char}

theorem countedAnywhere_run {w : List Char} (hw : DerivesRun w s t)
    (h : CountedAtToken closings (.rule (Operator.ofKeyword? (String.ofList w)).isSome) t) :
    CountedAnywhere closings (.rule b) s := by
  obtain ⟨hu, hne, hquote, hplain, ht⟩ := hw
  have hhead : ∀ c ∈ w.head?, isBlank c = false ∧ isQuote c = false := by
    intro c hc
    exact ⟨not_isBlank_of_not_isDelimiter (hplain c (List.mem_of_mem_head? hc)), hquote c hc⟩
  have hclosing : ∀ c ∈ w, c ≠ ')' := by
    intro c hc heq
    have hdelimiter := hplain c hc
    rw [heq] at hdelimiter
    cases hdelimiter
  have hrest : ∀ c ∈ t.head?, isDelimiter c = true ∧ isQuote c = false :=
    fun c hc => ⟨ht c hc, not_isQuote_of_isDelimiter (ht c hc)⟩
  rw [List.append_assoc]
  exact countedAnywhere_blanks hu (countedAnywhere_bare hne hhead hplain hclosing hrest h)

theorem exists_countedAtToken_token {x : String} (hx : DerivesToken x s t) :
    ∃ next, ∀ closings, CountedAnywhere closings (.rule next) t →
      CountedAtToken closings (.rule b) s := by
  cases hx with
  | quoted hx => exact ⟨false, fun _ h => countedAtToken_quoted hx h⟩
  | bare hx =>
    exact ⟨_, fun _ h => (countedAnywhere_run hx h.toCountedAtToken).toCountedAtToken⟩

theorem countedAnywhere_operator {op : Operator} (hop : DerivesKeyword op.keyword s t)
    (h : CountedAtToken closings (.rule true) t) :
    CountedAnywhere closings (.rule b) s := by
  obtain ⟨hrun, hw⟩ := hop
  refine countedAnywhere_run hrun ?_
  rwa [Operator.ofKeyword?_of_spells hw]

/-- No connective is a comparison operator. -/
theorem countedAnywhere_connective {op : Connective} (hop : DerivesKeyword op.keyword s t)
    (h : CountedAtToken closings (.rule false) t) :
    CountedAnywhere closings (.rule b) s := by
  obtain ⟨hrun, hw⟩ := hop
  rename_i w
  have hnone : Operator.ofKeyword? (String.ofList w) = none := by
    have hsame : Operator.ofKeyword? (String.ofList w) = Operator.ofKeyword? op.keyword := by
      unfold Operator.ofKeyword?
      congr 1
      funext other
      rw [sameWord_comm, hw.sameWord_eq op.isPlain_keyword, sameWord_comm]
    rw [hsame]
    cases op <;> decide
  refine countedAnywhere_run hrun ?_
  rwa [hnone]

theorem countedAnywhere_derivesMark {d : Char} {closings' : Nat} {p q : Place}
    (hd : DerivesMark d s t)
    (hsymbols : symbols p (d :: t) = .mark d :: symbols q t)
    (hplace : isDelimiter d = true ∨ d = ',')
    (hdepth : ∀ depth text, depthAfter (depth + closings) (d :: text) =
      depthAfter (depth + closings') text)
    (h : CountedAtToken closings' q t) : CountedAnywhere closings p s := by
  obtain ⟨hu⟩ := hd
  exact countedAnywhere_blanks hu (countedAnywhere_mark hsymbols hplace hdepth h)

theorem countedAnywhere_dot (hd : DerivesMark '.' s t)
    (h : CountedAtToken closings (.rule false) t) :
    CountedAnywhere closings (.rule b) s :=
  countedAnywhere_derivesMark hd (symbols_mark rfl rfl rfl) (.inl rfl)
    (fun _ _ => depthAfter_cons (by decide)) h

theorem countedAnywhere_opening {p : Place} (hd : DerivesMark '(' s t)
    (hplace : p = Place.afterMark '(' (.rule b))
    (h : CountedAtToken (closings + 1) p t) :
    CountedAnywhere closings (.rule b) s := by
  subst hplace
  exact countedAnywhere_derivesMark hd (symbols_mark rfl rfl rfl) (.inl rfl)
    (fun _ _ => depthAfter_opening) h

theorem countedAnywhere_closing {p : Place} (hd : DerivesMark ')' s t)
    (hmark : p.isMark ')' = true) (hplace : p.afterMark ')' = .rule false)
    (h : CountedAtToken closings (.rule false) t) : CountedAnywhere (closings + 1) p s := by
  have hsymbols : symbols p (')' :: t) = .mark ')' :: symbols (p.afterMark ')') t :=
    symbols_mark rfl rfl hmark
  rw [hplace] at hsymbols
  exact countedAnywhere_derivesMark hd hsymbols (.inl rfl) (fun _ _ => depthAfter_closing) h

end Tokens

/-! ## Comparisons -/

section Comparisons

variable {closings : Nat} {b : Bool} {s t : List Char}

theorem exists_countedAtToken_attribute {a : Attribute} (ha : DerivesAttribute a s t) :
    ∃ next, ∀ closings, CountedAnywhere closings (.rule next) t →
      CountedAtToken closings (.rule b) s := by
  cases ha with
  | identity hk hdot hproperty =>
    obtain ⟨next, hnext⟩ := exists_countedAtToken_token (b := false) hproperty
    refine ⟨next, fun closings h => ?_⟩
    obtain ⟨hrun, -⟩ := hk
    exact (countedAnywhere_run hrun
      (countedAnywhere_dot hdot (hnext closings h)).toCountedAtToken).toCountedAtToken
  | account hsource hdot hk hdot' hproperty | entitlement hsource hdot hk hdot' hproperty =>
    obtain ⟨next, hnext⟩ := exists_countedAtToken_token (b := false) hproperty
    obtain ⟨first, hfirst⟩ := exists_countedAtToken_token (b := b) hsource
    refine ⟨next, fun closings h => hfirst closings ?_⟩
    obtain ⟨hrun, -⟩ := hk
    exact countedAnywhere_dot hdot (countedAnywhere_run hrun
      (countedAnywhere_dot hdot' (hnext closings h)).toCountedAtToken).toCountedAtToken

theorem countedAtToken_element {x : String} (hx : DerivesElement x s t)
    (h : CountedAnywhere closings .list t) : CountedAtToken closings .list s := by
  cases hx with
  | quoted hx => exact countedAtToken_quoted hx h
  | @bare u w _ hu hstart hw ht =>
    have hrest : ∀ c ∈ t.head?, Place.list.isMark c = true ∧ isQuote c = false := by
      obtain ⟨c, tail, rfl, hc⟩ := ht
      intro d hd
      obtain rfl : c = d := by simpa using hd
      rcases hc with rfl | rfl <;> exact ⟨rfl, rfl⟩
    rw [List.append_assoc]
    refine countedAtToken_blanks hu ?_
    by_cases hne : w = []
    · rw [hne]
      exact h.toCountedAtToken
    · have hmark : ∀ c ∈ w, Place.list.isMark c = false := by
        intro c hc
        simpa [Place.isMark] using hw c hc
      exact (countedAnywhere_bare hne hstart hmark (fun c hc => (hw c hc).2) hrest
        h.toCountedAtToken).toCountedAtToken

theorem countedAtToken_elements {xs : List String} (hxs : DerivesElements xs s t)
    (h : CountedAnywhere closings .list t) : CountedAtToken closings .list s := by
  induction hxs with
  | last hx => exact countedAtToken_element hx h
  | cons hx hcomma _ ih =>
    have hrest := ih h
    exact countedAtToken_element hx (countedAnywhere_derivesMark hcomma
      (symbols_mark rfl rfl rfl) (.inr rfl) (fun _ _ => depthAfter_cons (by decide)) hrest)

theorem exists_countedAtToken_literal {l : Literal} (hl : DerivesLiteral l s t) :
    ∃ next, ∀ closings, CountedAnywhere closings (.rule next) t →
      CountedAtToken closings (.rule true) s := by
  cases hl with
  | single hx => exact exists_countedAtToken_token hx
  | list hopen _ hxs hclose =>
    refine ⟨false, fun closings h => ?_⟩
    have hend := countedAnywhere_closing (p := .list) hclose rfl rfl h.toCountedAtToken
    have hrest := countedAtToken_elements hxs hend
    exact (countedAnywhere_opening hopen rfl hrest).toCountedAtToken

theorem exists_countedAtToken_comparison {x : Comparison} (hx : DerivesComparison x s t) :
    ∃ next, ∀ closings, CountedAnywhere closings (.rule next) t →
      CountedAtToken closings (.rule b) s := by
  obtain ⟨hsubject, hoperator, hvalue⟩ := hx
  obtain ⟨first, hfirst⟩ := exists_countedAtToken_attribute (b := b) hsubject
  obtain ⟨next, hnext⟩ := exists_countedAtToken_literal hvalue
  exact ⟨next, fun closings h =>
    hfirst closings (countedAnywhere_operator hoperator (hnext closings h))⟩

end Comparisons

/-! ## Expressions -/

mutual

theorem exists_countedAtToken_operand : ∀ {e : Expression} {s t : List Char},
    DerivesOperand e s t → ∃ next, ∀ closings, CountedAnywhere closings (.rule next) t →
      CountedAtToken closings (.rule false) s
  | _, _, _, .comparison hx => exists_countedAtToken_comparison hx
  | _, _, _, .group hopen he hclose => by
    obtain ⟨inside, hinside⟩ := exists_countedAtToken_level he
    refine ⟨false, fun closings h => ?_⟩
    have hend := countedAnywhere_closing (p := .rule inside) hclose rfl rfl h.toCountedAtToken
    exact (countedAnywhere_opening hopen rfl (hinside _ hend)).toCountedAtToken

theorem exists_countedAnywhere_more : ∀ {op : Connective} {es : List Expression} {s t : List Char},
    DerivesMore op es s t → ∀ b, ∃ next, ∀ closings,
      CountedAnywhere closings (.rule next) t → CountedAnywhere closings (.rule b) s
  | _, _, _, _, .nil, b => ⟨b, fun _ h => h⟩
  | _, _, _, _, .cons hop he hes, _ => by
    obtain ⟨first, hfirst⟩ := exists_countedAtToken_operand he
    obtain ⟨next, hnext⟩ := exists_countedAnywhere_more hes first
    exact ⟨next, fun closings h =>
      countedAnywhere_connective hop (hfirst closings (hnext closings h))⟩

theorem exists_countedAtToken_level : ∀ {e : Expression} {s t : List Char},
    DerivesLevel e s t → ∃ next, ∀ closings, CountedAnywhere closings (.rule next) t →
      CountedAtToken closings (.rule false) s
  | _, _, _, .operand he => exists_countedAtToken_operand he
  | _, _, _, .logical he hes _ => by
    obtain ⟨first, hfirst⟩ := exists_countedAtToken_operand he
    obtain ⟨next, hnext⟩ := exists_countedAnywhere_more hes first
    exact ⟨next, fun closings h => hfirst closings (hnext closings h)⟩

end

theorem Derives.countedAtToken {e : Expression} {text : String} (h : Derives e text) :
    CountedAtToken 0 (.rule false) text.toList := by
  obtain ⟨hlevel, hv⟩ := h
  obtain ⟨next, hnext⟩ := exists_countedAtToken_level hlevel
  have hend := countedAnywhere_blanks hv (countedAnywhere_nil (p := .rule next))
  rw [List.append_nil] at hend
  exact hnext 0 hend

/-- In a text that is read, no parenthesis closes that was not opened before, and those that are
open in the end are the ones that open in bare symbols. This is so for the parentheses outside of
its quoted strings. If no quote in a bare symbol looks like the beginning of a string, it is so for
those outside of everything that looks like a string, and then the text is balanced exactly if no
parenthesis opens in a bare symbol. -/
theorem Expression.depthAfter_of_parse {text : String} {e : Expression} (h : parse text = .ok e) :
    depthAfter 0 ((symbols (.rule false) text.toList).flatMap Symbol.outside) =
        some (openings (symbols (.rule false) text.toList)) ∧
      (QuotesPlain (symbols (.rule false) text.toList) →
        depthAfter 0 (outsideStrings none text.toList) =
            some (openings (symbols (.rule false) text.toList)) ∧
          (BalancedParentheses text.toList ↔
            ∀ s ∈ symbols (.rule false) text.toList, '(' ∉ s.bare)) := by
  have hcounted := (derives_of_parse h).countedAtToken
  refine ⟨by simpa only [Nat.zero_add] using hcounted.bySymbols 0, fun hplain => ?_⟩
  have hdepth : depthAfter 0 (outsideStrings none text.toList) =
      some (openings (symbols (.rule false) text.toList)) := by
    simpa only [Nat.zero_add] using hcounted.byStrings hplain none quotePlace_none 0
  refine ⟨hdepth, ?_⟩
  rw [BalancedParentheses, hdepth, Option.some.injEq, openings_eq_zero]

/-- A parenthesis that opens in a list element without quotes, next to parentheses in strings, in a
group and around a list. -/
theorem Expression.depthAfter_of_parse_element :
    parse "identity.a in (x(y, 'z)') and ('b('.attribute.c eq ')' or identity.d eq O'Brien)" =
        .ok (.logical .and [
          .comparison ⟨.oneOf, ⟨.identity, "a"⟩, .list ["x(y", "z)"]⟩,
          .logical .or [
            .comparison ⟨.equal, ⟨.account "b(", "c"⟩, .single ")"⟩,
            .comparison ⟨.equal, ⟨.identity, "d"⟩, .single "O'Brien"⟩]]) ∧
      depthAfter 0 (outsideStrings none
        "identity.a in (x(y, 'z)') and ('b('.attribute.c eq ')' or identity.d eq O'Brien)".toList) =
          some 1 := by
  have hparse :
      parse "identity.a in (x(y, 'z)') and ('b('.attribute.c eq ')' or identity.d eq O'Brien)" =
        .ok (.logical .and [
          .comparison ⟨.oneOf, ⟨.identity, "a"⟩, .list ["x(y", "z)"]⟩,
          .logical .or [
            .comparison ⟨.equal, ⟨.account "b(", "c"⟩, .single ")"⟩,
            .comparison ⟨.equal, ⟨.identity, "d"⟩, .single "O'Brien"⟩]]) := by decide +kernel
  have hplain : QuotesPlain (symbols (.rule false)
      "identity.a in (x(y, 'z)') and ('b('.attribute.c eq ')' or identity.d eq O'Brien)".toList) := by
    decide +kernel
  have hopenings : openings (symbols (.rule false)
      "identity.a in (x(y, 'z)') and ('b('.attribute.c eq ')' or identity.d eq O'Brien)".toList) =
        1 := by decide +kernel
  have hdepth := ((depthAfter_of_parse hparse).2 hplain).1
  rw [hopenings] at hdepth
  exact ⟨hparse, hdepth⟩

/-- A text that is read although a parenthesis in it is never closed, and one with a quote after a
comma that looks like the beginning of a string. -/
theorem Expression.parse_unbalanced :
    (parse "identity.a in (x(y)" = .ok (.comparison ⟨.oneOf, ⟨.identity, "a"⟩, .list ["x(y"]⟩) ∧
        ¬ BalancedParentheses "identity.a in (x(y)".toList) ∧
      parse "identity.a eq x,'y and (identity.b eq z')" = .ok (.logical .and [
          .comparison ⟨.equal, ⟨.identity, "a"⟩, .single "x,'y"⟩,
          .comparison ⟨.equal, ⟨.identity, "b"⟩, .single "z'"⟩]) ∧
        ¬ BalancedParentheses "identity.a eq x,'y and (identity.b eq z')".toList := by
  decide +kernel

end Eligibility
