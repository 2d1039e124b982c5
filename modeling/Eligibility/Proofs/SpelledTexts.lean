import Eligibility.Proofs.Printing
import Eligibility.Proofs.Regularity

/-!
# Texts that spell an expression

However an expression is spelled, it is read as what it spells (`Expression.parse_spelled`): the
case of keywords, the blanks, the kind of quotes and superfluous parentheses do not matter. An
expression has a spelling exactly if it is regular.
-/

namespace Eligibility

/-- What is spelled is what is read. -/
theorem Spells.parse_eq {e : Expression} {text : String} (h : Spells e text.toList) :
    Expression.parse text = .ok e :=
  Level.parse_of_spells h 0

/-- Only regular expressions have spellings, and all of them have one. -/
theorem Expression.isRegular_iff_spells {e : Expression} :
    e.IsRegular ↔ ∃ text : String, Spells e text.toList := by
  constructor
  · intro h
    exact ⟨e.text, spells_text h⟩
  · rintro ⟨text, h⟩
    exact isRegular_of_parse h.parse_eq

/-- One more pair of parentheses around the whole. -/
theorem Spells.parentheses {e : Expression} {w : List Char} (h : Spells e w) :
    Spells e ('(' :: w ++ [')']) := by
  simpa using Spells.operand allBlank_nil (.group h) allBlank_nil

/-! ## Recognising symbols -/

-- the instance is named because there is also one that goes through all characters there are
instance (text : List Char) : Decidable (AllBlank text) :=
  List.decidableBAll (fun c => isBlank c = true) text

instance (keyword : String) (text : List Char) : Decidable (SpellsKeyword keyword text) :=
  inferInstanceAs (Decidable (text.map Char.toLower = keyword.toList))

instance (previous : Option Char) : Decidable (QuotePlace previous) :=
  decidable_of_iff _ GroupSearch.mayQuoteAfter_eq_true

instance decidableQuotesInside : (previous : Option Char) → (text : List Char) →
    Decidable (QuotesInside previous text)
  | _, [] => isTrue trivial
  | previous, c :: text =>
    have := decidableQuotesInside (some c) text
    inferInstanceAs (Decidable
      ((isQuote c = true → ¬ QuotePlace previous) ∧ QuotesInside (some c) text))

instance (text : List Char) : Decidable (BareWord text) :=
  have := List.decidableBAll (fun c => isDelimiter c = false) text
  decidable_of_iff
    (text ≠ [] ∧ (∀ c ∈ text, isDelimiter c = false) ∧ QuotesInside none text)
    ⟨fun ⟨hne, hplain, hquotes⟩ => ⟨hne, hplain, hquotes⟩,
      fun ⟨hne, hplain, hquotes⟩ => ⟨hne, hplain, hquotes⟩⟩

instance (text : List Char) : Decidable (BareElement text) :=
  have := List.decidableBAll (fun c => c ≠ ',' ∧ c ≠ '(' ∧ c ≠ ')') text
  decidable_of_iff
    (text ≠ [] ∧ trimmed text = text ∧ (∀ c ∈ text, c ≠ ',' ∧ c ≠ '(' ∧ c ≠ ')') ∧
      QuotesInside none text)
    ⟨fun ⟨hne, htrimmed, hplain, hquotes⟩ => ⟨hne, htrimmed, hplain, hquotes⟩,
      fun ⟨hne, htrimmed, hplain, hquotes⟩ => ⟨hne, htrimmed, hplain, hquotes⟩⟩

/-! ## Main result -/

/-- Every spelling of an expression is read as that expression, and every regular expression has
spellings. -/
theorem Expression.parse_spelled (e : Expression) :
    (e.IsRegular ↔ ∃ text : String, Spells e text.toList) ∧
      ∀ text : String, Spells e text.toList → parse text = .ok e :=
  ⟨isRegular_iff_spells, fun _ h => h.parse_eq⟩

/-- Every freedom at once: keywords in mixed case, all four blanks, both kinds of quotes, bare words
with quotes and commas in them, elements with blanks, and superfluous parentheses. -/
theorem Expression.parse_spelled_freely :
    parse ("\t( O'Brien\n. aTTribute.a,b iN(x y , it's,\"(\")Or(" ++
        "(IDENTITY.and EQ \"say \"\"hi\"\"\" AND\r'identity' .entitlement.'' nc y')) )") =
      .ok (.logical .or [
        .comparison ⟨.oneOf, ⟨.account "O'Brien", "a,b"⟩, .list ["x y", "it's", "("]⟩,
        .logical .and [
          .comparison ⟨.equal, ⟨.identity, "and"⟩, .single "say \"hi\""⟩,
          .comparison ⟨.lacks, ⟨.entitlement "identity", ""⟩, .single "y'"⟩]]) := by
  have hlist : SpellsValues ["x y", "it's", "("] "x y , it's,\"(\"".toList :=
    .cons (w := "x y".toList) allBlank_nil (.bare (by decide)) allBlank_space
      (.cons (w := "it's".toList) allBlank_space (.bare (by decide)) allBlank_nil
        (.last allBlank_nil (.quoted (.mk '"' rfl)) allBlank_nil))
  have hdot : SpellsDot "\n. ".toList := .mk (u := ['\n']) (by decide) allBlank_space
  have haccount : SpellsAttribute ⟨.account "O'Brien", "a,b"⟩
      ("O'Brien".toList ++ "\n. ".toList ++ "aTTribute".toList ++ ['.'] ++ "a,b".toList) :=
    .account (.bare (by decide) (by decide)) hdot (by decide) spellsDot_self (.bare (by decide))
  have hfirst := SpellsComparison.mk (c := ⟨.oneOf, _, _⟩) (k := "iN".toList) haccount
    allBlank_space (by simp) (by decide) allBlank_nil (.inr rfl) (.list hlist)
  have hidentity : SpellsAttribute ⟨.identity, "and"⟩
      ("IDENTITY".toList ++ ['.'] ++ "and".toList) :=
    .identity (by decide) spellsDot_self (.bare (by decide))
  have hsecond := SpellsComparison.mk (c := ⟨.equal, _, .single "say \"hi\""⟩) (k := "EQ".toList)
    hidentity allBlank_space (by simp) (by decide) allBlank_space (.inl (by simp))
    (.single (.quoted (.mk '"' rfl)))
  have hentitlement : SpellsAttribute ⟨.entitlement "identity", ""⟩
      ("'identity'".toList ++ " .".toList ++ "entitlement".toList ++ ['.'] ++ "''".toList) :=
    .entitlement (.quoted (.mk '\'' rfl)) (.mk (u := [' ']) allBlank_space allBlank_nil)
      (by decide) spellsDot_self (.quoted (.mk '\'' rfl))
  have hthird := SpellsComparison.mk (c := ⟨.lacks, _, .single "y'"⟩) (k := "nc".toList)
    hentitlement allBlank_space (by simp) (by decide) allBlank_space (.inl (by simp))
    (.single (.bare (by decide)))
  have hand : Spells (.logical .and [_, _]) _ := .logical (by simp) allBlank_nil
    (.cons (k := "AND".toList) (v := ['\r']) (.comparison hsecond) allBlank_space (.inl (by simp))
      (by decide) (by decide) (.inl (by simp)) (.last (.comparison hthird))) allBlank_nil
  have hor : Spells (.logical .or [_, _]) _ := .logical (by simp) allBlank_space
    (.cons (k := "Or".toList) (.comparison hfirst) allBlank_nil (.inr rfl) (by decide)
      allBlank_nil (.inr rfl) (.last (.group hand.parentheses))) allBlank_space
  have hwhole := Spells.operand (u := ['\t']) (by decide) (.group hor) allBlank_nil
  exact (parse_spelled _).2 _ (by simpa [doubled] using hwhole)

end Eligibility
