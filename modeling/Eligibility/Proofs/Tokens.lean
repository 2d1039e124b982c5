import Eligibility.Proofs.Spelling

/-!
# Reading spelled tokens

The spelling of a keyword, a word or a source is read as one token, whatever follows it, as long as
that does not go on the token.
-/

namespace Eligibility

/-! ## Keywords -/

/-- A word of lower-case letters, as all keywords are. -/
abbrev IsPlain (keyword : String) : Prop :=
  keyword ≠ "" ∧ keyword.toList.map Char.toLower = keyword.toList ∧
    (keyword.toList.all fun c => !isDelimiter c && !isQuote c) = true

theorem isPlain_identity : IsPlain "identity" := by decide

theorem isPlain_attribute : IsPlain "attribute" := by decide

theorem isPlain_entitlement : IsPlain "entitlement" := by decide

/-- A text that begins like a token: with a character that is no delimiter. -/
def BeginsToken (text : List Char) : Prop := ∃ c tail, text = c :: tail ∧ isDelimiter c = false

theorem BeginsToken.append {text : List Char} (h : BeginsToken text) (more : List Char) :
    BeginsToken (text ++ more) := by
  obtain ⟨c, tail, rfl, hc⟩ := h
  exact ⟨c, tail ++ more, rfl, hc⟩

theorem Operator.isPlain_keyword (op : Operator) : IsPlain op.keyword := by
  cases op <;> decide

theorem Connective.isPlain_keyword (op : Connective) : IsPlain op.keyword := by
  cases op <;> decide

theorem spellsKeyword_self {keyword : String} (h : IsPlain keyword) :
    SpellsKeyword keyword keyword.toList := h.2.1

theorem toLower_of_special {c : Char} (h : isDelimiter c = true ∨ isQuote c = true) :
    c.toLower = c := by
  rcases h with h | h
  · simp only [isDelimiter, isBlank, Bool.or_eq_true, beq_iff_eq] at h
    rcases h with (((((rfl | rfl) | rfl) | rfl) | rfl) | rfl) | rfl <;> rfl
  · rcases isQuote_eq_true_iff.1 h with rfl | rfl <;> rfl

namespace SpellsKeyword

variable {keyword : String} {w : List Char}

theorem plain (h : SpellsKeyword keyword w) (hplain : IsPlain keyword) :
    ∀ c ∈ w, isDelimiter c = false ∧ isQuote c = false := by
  intro c hc
  have hmem : c.toLower ∈ keyword.toList := by
    rw [← h]
    exact List.mem_map_of_mem hc
  have hlower : isDelimiter c.toLower = false ∧ isQuote c.toLower = false := by
    simpa using List.all_eq_true.1 hplain.2.2 _ hmem
  by_cases hspecial : isDelimiter c = true ∨ isQuote c = true
  · rwa [toLower_of_special hspecial] at hlower
  · simpa [not_or] using hspecial

theorem ne_nil (h : SpellsKeyword keyword w) (hplain : IsPlain keyword) : w ≠ [] := by
  rintro rfl
  exact hplain.1 (String.toList_inj.1 h.symm)

theorem beginsToken (h : SpellsKeyword keyword w) (hplain : IsPlain keyword) : BeginsToken w := by
  obtain ⟨c, tail, rfl⟩ := List.exists_cons_of_ne_nil (h.ne_nil hplain)
  exact ⟨c, tail, rfl, (h.plain hplain c List.mem_cons_self).1⟩

/-- A spelled keyword and the keyword itself are the same word. -/
theorem sameWord_eq (h : SpellsKeyword keyword w) (hplain : IsPlain keyword) (other : String) :
    sameWord (String.ofList w) other = sameWord keyword other := by
  unfold sameWord
  rw [String.toList_ofList, h, hplain.2.1]

theorem isKeyword (h : SpellsKeyword keyword w) (hplain : IsPlain keyword) {token : Token}
    (hquoted : token.quoted = false) (htext : token.text = String.ofList w) :
    token.isKeyword keyword = true := by
  have hsame : sameWord keyword keyword = true := by simp [sameWord]
  simp [Token.isKeyword, hquoted, htext, h.sameWord_eq hplain, hsame]

/-- Reads a keyword as a token. -/
theorem readToken (h : SpellsKeyword keyword w) (hplain : IsPlain keyword) {u rest : List Char}
    (hu : AllBlank u) (hrest : EndsToken rest) (offset : Nat) :
    Scan.readToken ⟨u ++ w ++ rest, offset⟩ =
      .ok ⟨String.ofList w, false, offset + byteLength u⟩ ⟨rest, offset + byteLength (u ++ w)⟩ := by
  obtain ⟨c, tail, rfl⟩ := List.exists_cons_of_ne_nil (h.ne_nil hplain)
  have hc := h.plain hplain c List.mem_cons_self
  exact Scan.readToken_bare hu (fun d hd => (h.plain hplain d hd).1) hrest rfl
    (not_isBlank_of_not_isDelimiter hc.1) hc.2 offset

end SpellsKeyword

theorem sameWord_comm (a b : String) : sameWord a b = sameWord b a := by
  simp [sameWord, Bool.beq_comm]

/-- The operator that a spelled keyword means. -/
theorem Operator.ofKeyword?_of_spells {op : Operator} {w : List Char}
    (h : SpellsKeyword op.keyword w) : ofKeyword? (String.ofList w) = some op := by
  have hsame : ∀ other : Operator,
      sameWord other.keyword (String.ofList w) = sameWord other.keyword op.keyword := by
    intro other
    rw [sameWord_comm, h.sameWord_eq op.isPlain_keyword, sameWord_comm]
  simp only [ofKeyword?, hsame]
  cases op <;> decide

/-- The connective that a spelled keyword means. -/
theorem Connective.ofKeyword?_of_spells {op : Connective} {w : List Char}
    (h : SpellsKeyword op.keyword w) : ofKeyword? (String.ofList w) = some op := by
  have hsame : ∀ other : Connective,
      sameWord other.keyword (String.ofList w) = sameWord other.keyword op.keyword := by
    intro other
    rw [sameWord_comm, h.sameWord_eq op.isPlain_keyword, sameWord_comm]
  simp only [ofKeyword?, hsame]
  cases op <;> decide

/-! ## Tokens -/

theorem QuotesInside.head {text : List Char} (h : QuotesInside none text) :
    ∀ c ∈ text.head?, isQuote c = false := by
  cases text with
  | nil => simp
  | cons c text =>
    intro d hd
    obtain rfl : c = d := by simpa using hd
    exact Bool.eq_false_iff.2 fun hquote => h.1 hquote quotePlace_none

theorem SpellsQuoted.readToken {text : String} {w u rest : List Char} (h : SpellsQuoted text w)
    (hu : AllBlank u) (hrest : EndsToken rest) (offset : Nat) :
    Scan.readToken ⟨u ++ w ++ rest, offset⟩ =
      .ok ⟨text, true, offset + byteLength u⟩ ⟨rest, offset + byteLength (u ++ w)⟩ := by
  obtain ⟨quote, hquote⟩ := h
  have hread := Scan.readToken_quoted hu hquote (hrest.head?_ne hquote) text.toList offset
  rwa [String.ofList_toList] at hread

theorem BareWord.readToken {text : String} {u rest : List Char} (h : BareWord text.toList)
    (hu : AllBlank u) (hrest : EndsToken rest) (offset : Nat) :
    Scan.readToken ⟨u ++ text.toList ++ rest, offset⟩ =
      .ok ⟨text, false, offset + byteLength u⟩
        ⟨rest, offset + byteLength (u ++ text.toList)⟩ := by
  obtain ⟨c, tail, hcons⟩ := List.exists_cons_of_ne_nil h.nonempty
  have hdelimiter := h.noDelimiter c (by simp [hcons])
  have hquote := h.quotesInside.head c (by simp [hcons])
  have hwhole : text.toList ++ rest = c :: (tail ++ rest) := by simp [hcons]
  have hread := Scan.readToken_bare hu h.noDelimiter hrest hwhole
    (not_isBlank_of_not_isDelimiter hdelimiter) hquote offset
  rwa [String.ofList_toList] at hread

theorem BareWord.ne_empty {text : String} (h : BareWord text.toList) : (text == "") = false := by
  have hne : text ≠ "" := by
    rintro rfl
    exact h.nonempty rfl
  simpa using hne

theorem SpellsQuoted.beginsToken {text : String} {w : List Char} (h : SpellsQuoted text w) :
    BeginsToken w := by
  obtain ⟨quote, hquote⟩ := h
  refine ⟨quote, _, rfl, Bool.eq_false_iff.2 fun hdelimiter => ?_⟩
  rw [not_isQuote_of_isDelimiter hdelimiter] at hquote
  cases hquote

theorem BareWord.beginsToken {w : List Char} (h : BareWord w) : BeginsToken w := by
  obtain ⟨c, tail, rfl⟩ := List.exists_cons_of_ne_nil h.nonempty
  exact ⟨c, tail, rfl, h.noDelimiter c List.mem_cons_self⟩

theorem SpellsSource.beginsToken {source : String} {w : List Char} (h : SpellsSource source w) :
    BeginsToken w := by
  cases h with
  | quoted h => exact h.beginsToken
  | bare h => exact h.beginsToken

theorem SpellsAttribute.beginsToken {a : Attribute} {w : List Char} (h : SpellsAttribute a w) :
    BeginsToken w := by
  cases h with
  | identity hk => exact ((hk.beginsToken isPlain_identity).append _).append _
  | account hs => exact ((((hs.beginsToken).append _).append _).append _).append _
  | entitlement hs => exact ((((hs.beginsToken).append _).append _).append _).append _

theorem SpellsComparison.beginsToken {c : Comparison} {w : List Char}
    (h : SpellsComparison c w) : BeginsToken w := by
  obtain ⟨ha⟩ := h
  exact ((((ha.beginsToken).append _).append _).append _).append _

/-- What is known of a token that spells a text. -/
def Token.Denotes (text : String) (token : Token) : Prop :=
  token.text = text ∧ token.isEmpty = false

namespace Scan

theorem reads_token {text : String} {w u rest : List Char} (h : SpellsWord text w)
    (hu : AllBlank u) (hrest : EndsToken rest) :
    Reads readToken (u ++ w) rest (Token.Denotes text) := by
  intro offset
  cases h with
  | quoted h => exact ⟨_, ⟨rfl, rfl⟩, h.readToken hu hrest offset⟩
  | bare h =>
    exact ⟨_, ⟨rfl, by simp [Token.isEmpty, h.ne_empty]⟩, h.readToken hu hrest offset⟩

theorem reads_source {source : String} {w u rest : List Char} (h : SpellsSource source w)
    (hu : AllBlank u) (hrest : EndsToken rest) :
    Reads readToken (u ++ w) rest fun t => t.Denotes source ∧ t.isKeyword "identity" = false := by
  intro offset
  cases h with
  | quoted h => exact ⟨_, ⟨⟨rfl, rfl⟩, rfl⟩, h.readToken hu hrest offset⟩
  | bare h hne =>
    refine ⟨_, ⟨⟨rfl, by simp [Token.isEmpty, h.ne_empty]⟩, ?_⟩, h.readToken hu hrest offset⟩
    have hsame : sameWord source "identity" = false := by
      refine Bool.eq_false_iff.2 fun hsame => hne ?_
      show source.toList.map Char.toLower = "identity".toList
      simpa [sameWord] using hsame
    simp [Token.isKeyword, hsame]

theorem reads_keyword {keyword : String} {w u rest : List Char} (h : SpellsKeyword keyword w)
    (hplain : IsPlain keyword) (hu : AllBlank u) (hrest : EndsToken rest) :
    Reads readToken (u ++ w) rest fun t =>
      t.quoted = false ∧ t.text = String.ofList w ∧ t.isEmpty = false := by
  intro offset
  refine ⟨_, ⟨rfl, rfl, ?_⟩, h.readToken hplain hu hrest offset⟩
  have hne : String.ofList w ≠ "" := by
    intro hempty
    exact h.ne_nil hplain (by simpa using congrArg String.toList hempty)
  simp [Token.isEmpty, hne]

/-- A token that is not empty is a word. -/
theorem reads_word {text rest : List Char} {P : Token → Prop} (h : Reads readToken text rest P)
    (hP : ∀ t, P t → t.isEmpty = false) : Reads readWord text rest P := by
  refine h.bind_still fun t ht => ?_
  rw [hP t ht]
  exact Reads.pure ht

end Scan

end Eligibility
