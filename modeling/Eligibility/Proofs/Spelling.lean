import Eligibility.Expression
import Eligibility.Proofs.Nesting
import Eligibility.Proofs.Reading

/-!
# Spellings of an expression

An expression can be written in many ways: keywords in any case, strings between either quotes or
bare, blanks between any two symbols, parentheses around any operand. `Spells e text` says that the
text is one of them. The relation is stated without regard to how texts are read.

Two neighbouring symbols need a blank between them unless one of them is a dot, a comma or a
parenthesis. A bare string must not look like something else: it has no character that ends it, and
no quote where a quoted string could begin.
-/

namespace Eligibility

/-! ## Symbols -/

/-- A text that spells a keyword, in any case. -/
def SpellsKeyword (keyword : String) (text : List Char) : Prop :=
  text.map Char.toLower = keyword.toList

/-- No quote of the text stands at a place where a quoted string may begin. The character before
the text is given, if there is one. -/
def QuotesInside : Option Char → List Char → Prop
  | _, [] => True
  | previous, c :: text => (isQuote c = true → ¬ QuotePlace previous) ∧ QuotesInside (some c) text

/-- A text that may stand for itself as a token: it has no delimiter, and no quote at its start or
after a comma. -/
structure BareWord (text : List Char) : Prop where
  /-- There is a character. -/
  nonempty : text ≠ []
  /-- The token does not end early. -/
  noDelimiter : ∀ c ∈ text, isDelimiter c = false
  /-- No quoted string seems to begin in it. -/
  quotesInside : QuotesInside none text

/-- A text that may stand for itself as an element of a list: it has no comma and no parenthesis,
no whitespace at its ends, and no quote at its start, after a blank or after a dot. -/
structure BareElement (text : List Char) : Prop where
  /-- There is a character. -/
  nonempty : text ≠ []
  /-- Nothing of it is trimmed. -/
  trimmed_eq : trimmed text = text
  /-- The element does not end early, and does not open a group. -/
  noSeparator : ∀ c ∈ text, c ≠ ',' ∧ c ≠ '(' ∧ c ≠ ')'
  /-- No quoted string seems to begin in it. -/
  quotesInside : QuotesInside none text

/-- A text as a string between quotes of either kind. -/
inductive SpellsQuoted (text : String) : List Char → Prop where
  /-- The quote is doubled inside. -/
  | mk (quote : Char) (hquote : isQuote quote = true) :
      SpellsQuoted text (quote :: doubled quote text.toList ++ [quote])

/-- A text as a token: a property or a single value. -/
inductive SpellsWord (text : String) : List Char → Prop where
  /-- Between quotes. -/
  | quoted {w : List Char} (h : SpellsQuoted text w) : SpellsWord text w
  /-- As it is. -/
  | bare (h : BareWord text.toList) : SpellsWord text text.toList

/-- The name of a source as a token. Without quotes it must not spell the keyword that stands in
the place of a source. -/
inductive SpellsSource (source : String) : List Char → Prop where
  /-- Between quotes. -/
  | quoted {w : List Char} (h : SpellsQuoted source w) : SpellsSource source w
  /-- As it is. -/
  | bare (h : BareWord source.toList) (hne : ¬ SpellsKeyword "identity" source.toList) :
      SpellsSource source source.toList

/-- A text as an element of a list of values. -/
inductive SpellsElement (text : String) : List Char → Prop where
  /-- Between quotes. -/
  | quoted {w : List Char} (h : SpellsQuoted text w) : SpellsElement text w
  /-- As it is. -/
  | bare (h : BareElement text.toList) : SpellsElement text text.toList

/-! ## Comparisons -/

/-- A dot with blanks on both sides. -/
inductive SpellsDot : List Char → Prop where
  /-- The blanks may be missing. -/
  | mk {u v : List Char} (hu : AllBlank u) (hv : AllBlank v) : SpellsDot (u ++ '.' :: v)

/-- The spellings of an attribute. -/
inductive SpellsAttribute : Attribute → List Char → Prop where
  /-- An attribute of the identity. -/
  | identity {property : String} {k d w : List Char} (hk : SpellsKeyword "identity" k)
      (hd : SpellsDot d) (hw : SpellsWord property w) :
      SpellsAttribute ⟨.identity, property⟩ (k ++ d ++ w)
  /-- An attribute of an account. -/
  | account {source property : String} {s d k d' w : List Char} (hs : SpellsSource source s)
      (hd : SpellsDot d) (hk : SpellsKeyword "attribute" k) (hd' : SpellsDot d')
      (hw : SpellsWord property w) :
      SpellsAttribute ⟨.account source, property⟩ (s ++ d ++ k ++ d' ++ w)
  /-- An attribute of an entitlement. -/
  | entitlement {source property : String} {s d k d' w : List Char} (hs : SpellsSource source s)
      (hd : SpellsDot d) (hk : SpellsKeyword "entitlement" k) (hd' : SpellsDot d')
      (hw : SpellsWord property w) :
      SpellsAttribute ⟨.entitlement source, property⟩ (s ++ d ++ k ++ d' ++ w)

/-- The spellings of the inside of a list of values. -/
inductive SpellsValues : List String → List Char → Prop where
  /-- The last value. -/
  | last {x : String} {u w v : List Char} (hu : AllBlank u) (hw : SpellsElement x w)
      (hv : AllBlank v) : SpellsValues [x] (u ++ w ++ v)
  /-- A value before others. -/
  | cons {x : String} {xs : List String} {u w v t : List Char} (hu : AllBlank u)
      (hw : SpellsElement x w) (hv : AllBlank v) (ht : SpellsValues xs t) :
      SpellsValues (x :: xs) (u ++ w ++ v ++ ',' :: t)

/-- The spellings of a literal. -/
inductive SpellsLiteral : Literal → List Char → Prop where
  /-- One value. -/
  | single {x : String} {w : List Char} (hw : SpellsWord x w) : SpellsLiteral (.single x) w
  /-- A list of values, which has at least one. -/
  | list {xs : List String} {t : List Char} (ht : SpellsValues xs t) :
      SpellsLiteral (.list xs) ('(' :: t ++ [')'])

/-- The spellings of a comparison. -/
inductive SpellsComparison (c : Comparison) : List Char → Prop where
  /-- The operator stands between blanks, of which there may be none before a list. -/
  | mk {a u k v l : List Char} (ha : SpellsAttribute c.subject a) (hu : AllBlank u) (hu' : u ≠ [])
      (hk : SpellsKeyword c.operator.keyword k) (hv : AllBlank v)
      (hv' : v ≠ [] ∨ c.value.isList = true) (hl : SpellsLiteral c.value l) :
      SpellsComparison c (a ++ u ++ k ++ v ++ l)

/-! ## Expressions -/

mutual

/-- The spellings of an expression as an operand. The flag tells whether the last symbol is a
parenthesis. -/
inductive SpellsOperand : Expression → Bool → List Char → Prop where
  /-- A comparison as it is. -/
  | comparison {c : Comparison} {w : List Char} (h : SpellsComparison c w) :
      SpellsOperand (.comparison c) c.value.isList w
  /-- Any expression in parentheses. -/
  | group {e : Expression} {w : List Char} (h : Spells e w) :
      SpellsOperand e true ('(' :: w ++ [')'])

/-- The spellings of operands with a connective between each two. -/
inductive SpellsSequence : Connective → List Expression → List Char → Prop where
  /-- The last operand. -/
  | last {op : Connective} {e : Expression} {closed : Bool} {w : List Char}
      (h : SpellsOperand e closed w) : SpellsSequence op [e] w
  /-- An operand before others. -/
  | cons {op : Connective} {e : Expression} {es : List Expression} {closed : Bool}
      {w u k v t : List Char} (hw : SpellsOperand e closed w) (hu : AllBlank u)
      (hu' : u ≠ [] ∨ closed = true) (hk : SpellsKeyword op.keyword k) (hv : AllBlank v)
      (hv' : v ≠ [] ∨ t.head? = some '(') (ht : SpellsSequence op es t) :
      SpellsSequence op (e :: es) (w ++ u ++ k ++ v ++ t)

/-- The spellings of an expression. -/
inductive Spells : Expression → List Char → Prop where
  /-- An operand alone. -/
  | operand {e : Expression} {closed : Bool} {u w v : List Char} (hu : AllBlank u)
      (hw : SpellsOperand e closed w) (hv : AllBlank v) : Spells e (u ++ w ++ v)
  /-- Two operands or more. -/
  | logical {op : Connective} {es : List Expression} {u w v : List Char} (hes : 2 ≤ es.length)
      (hu : AllBlank u) (hw : SpellsSequence op es w) (hv : AllBlank v) :
      Spells (.logical op es) (u ++ w ++ v)

end

end Eligibility
