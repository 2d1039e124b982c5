import Eligibility.Proofs.Spelling

/-!
# The grammar of rule texts

The grammar that stands at the head of the parser, as relations that do not mention the parser:

```text
expression := operand ( connective operand )*
operand    := '(' expression ')' | comparison
comparison := attribute operator literal
attribute  := 'identity' '.' token | token '.' ( 'attribute' | 'entitlement' ) '.' token
literal    := token | '(' value ( ',' value )* ')'
```

Every relation `DerivesX x s t` says that the text `s` begins with an `X` that yields `x` and goes
on with `t`. Blanks may stand before every symbol, and at the end of the text. What follows a symbol
matters to it: a run of characters is only a token if it does not go on.
-/

namespace Eligibility

/-! ## Symbols -/

/-- A punctuation character. -/
inductive DerivesMark (d : Char) : List Char → List Char → Prop where
  | mk {u t : List Char} (hu : AllBlank u) : DerivesMark d (u ++ d :: t) t

theorem DerivesMark.ne_nil {d : Char} {s t : List Char} (h : DerivesMark d s t) : s ≠ [] := by
  cases h
  simp

/-- A string between quotes of either kind, doubled inside. The same quote does not follow, for that
would be a doubled one. -/
inductive DerivesQuoted (x : String) : List Char → List Char → Prop where
  | mk {u t : List Char} {quote : Char} (hu : AllBlank u) (hquote : isQuote quote = true)
      (ht : t.head? ≠ some quote) :
      DerivesQuoted x (u ++ (quote :: doubled quote x.toList ++ [quote]) ++ t) t

/-- All characters up to a delimiter, of which there is at least one. The first is no quote. -/
inductive DerivesRun (w : List Char) : List Char → List Char → Prop where
  | mk {u t : List Char} (hu : AllBlank u) (hne : w ≠ [])
      (hquote : ∀ c ∈ w.head?, isQuote c = false) (hplain : ∀ c ∈ w, isDelimiter c = false)
      (ht : EndsToken t) : DerivesRun w (u ++ w ++ t) t

/-- A token. -/
inductive DerivesToken (x : String) : List Char → List Char → Prop where
  | quoted {s t : List Char} (h : DerivesQuoted x s t) : DerivesToken x s t
  | bare {s t : List Char} (h : DerivesRun x.toList s t) : DerivesToken x s t

/-- A keyword, in any case and never between quotes. -/
inductive DerivesKeyword (keyword : String) : List Char → List Char → Prop where
  | mk {w s t : List Char} (hrun : DerivesRun w s t) (hw : SpellsKeyword keyword w) :
      DerivesKeyword keyword s t

/-- An element of a list: a quoted string, or the trimmed text up to a comma or the parenthesis that
closes. That text may be empty, and it does not begin with a quote. -/
inductive DerivesElement : String → List Char → List Char → Prop where
  | quoted {x : String} {s t : List Char} (h : DerivesQuoted x s t) : DerivesElement x s t
  | bare {u w t : List Char} (hu : AllBlank u)
      (hstart : ∀ c ∈ w.head?, isBlank c = false ∧ isQuote c = false)
      (hw : ∀ c ∈ w, c ≠ ',' ∧ c ≠ ')') (ht : ∃ c tail, t = c :: tail ∧ (c = ',' ∨ c = ')')) :
      DerivesElement (trim (String.ofList w)) (u ++ w ++ t) t

/-! ## Comparisons -/

/-- An attribute. -/
inductive DerivesAttribute : Attribute → List Char → List Char → Prop where
  | identity {property : String} {s a b t : List Char} (hk : DerivesKeyword "identity" s a)
      (hdot : DerivesMark '.' a b) (hproperty : DerivesToken property b t) :
      DerivesAttribute ⟨.identity, property⟩ s t
  | account {source property : String} {s a b c d t : List Char}
      (hsource : DerivesToken source s a) (hdot : DerivesMark '.' a b)
      (hk : DerivesKeyword "attribute" b c) (hdot' : DerivesMark '.' c d)
      (hproperty : DerivesToken property d t) :
      DerivesAttribute ⟨.account source, property⟩ s t
  | entitlement {source property : String} {s a b c d t : List Char}
      (hsource : DerivesToken source s a) (hdot : DerivesMark '.' a b)
      (hk : DerivesKeyword "entitlement" b c) (hdot' : DerivesMark '.' c d)
      (hproperty : DerivesToken property d t) :
      DerivesAttribute ⟨.entitlement source, property⟩ s t

/-- Elements with a comma between each two. -/
inductive DerivesElements : List String → List Char → List Char → Prop where
  | last {x : String} {s t : List Char} (hx : DerivesElement x s t) : DerivesElements [x] s t
  | cons {x : String} {xs : List String} {s a b t : List Char} (hx : DerivesElement x s a)
      (hcomma : DerivesMark ',' a b) (hxs : DerivesElements xs b t) :
      DerivesElements (x :: xs) s t

/-- A literal. A list does not close right where it opens. -/
inductive DerivesLiteral : Literal → List Char → List Char → Prop where
  | single {x : String} {s t : List Char} (h : DerivesToken x s t) : DerivesLiteral (.single x) s t
  | list {xs : List String} {s a b t : List Char} (hopen : DerivesMark '(' s a)
      (hne : ∀ b, ¬ DerivesMark ')' a b) (hxs : DerivesElements xs a b)
      (hclose : DerivesMark ')' b t) : DerivesLiteral (.list xs) s t

/-- A comparison. -/
inductive DerivesComparison (x : Comparison) : List Char → List Char → Prop where
  | mk {s a b t : List Char} (hsubject : DerivesAttribute x.subject s a)
      (hoperator : DerivesKeyword x.operator.keyword a b) (hvalue : DerivesLiteral x.value b t) :
      DerivesComparison x s t

/-! ## Expressions -/

mutual

/-- An operand: a comparison, or any expression in parentheses. -/
inductive DerivesOperand : Expression → List Char → List Char → Prop where
  | comparison {x : Comparison} {s t : List Char} (h : DerivesComparison x s t) :
      DerivesOperand (.comparison x) s t
  | group {e : Expression} {s a b t : List Char} (hopen : DerivesMark '(' s a)
      (he : DerivesLevel e a b) (hclose : DerivesMark ')' b t) : DerivesOperand e s t

/-- Further operands, each after the given connective. -/
inductive DerivesMore : Connective → List Expression → List Char → List Char → Prop where
  | nil {op : Connective} {t : List Char} : DerivesMore op [] t t
  | cons {op : Connective} {e : Expression} {es : List Expression} {s a b t : List Char}
      (hop : DerivesKeyword op.keyword s a) (he : DerivesOperand e a b)
      (hes : DerivesMore op es b t) : DerivesMore op (e :: es) s t

/-- An expression: a single operand, which is the expression, or several with the same connective
between each two. -/
inductive DerivesLevel : Expression → List Char → List Char → Prop where
  | operand {e : Expression} {s t : List Char} (he : DerivesOperand e s t) : DerivesLevel e s t
  | logical {op : Connective} {e : Expression} {es : List Expression} {s a t : List Char}
      (he : DerivesOperand e s a) (hes : DerivesMore op es a t) (hne : es ≠ []) :
      DerivesLevel (.logical op (e :: es)) s t

end

/-- The expression is derived from the whole text. -/
inductive Derives (e : Expression) (text : String) : Prop where
  | mk {v : List Char} (h : DerivesLevel e text.toList v) (hv : AllBlank v)

end Eligibility
