import Eligibility.Proofs.Soundness

/-!
# Symbols of a rule text

A text can be cut into symbols without reading it: quoted strings, tokens without quotes, elements
of lists without quotes, and single characters between them. One thing has to be remembered from
one symbol to the next: a parenthesis opens a list if a comparison operator stands before it, and
else a group. In a list, what is not between quotes goes on to the next comma or parenthesis that
closes; elsewhere it goes on to the next delimiter.

Two lists of characters are made of a text. `Symbol.outside` leaves out the strings that are symbols
between quotes. `outsideStrings` leaves out every stretch that looks like a quoted string: it takes
a quote at the start of the text, and after a delimiter or a comma, for the beginning of one.
-/

namespace Eligibility

/-- A symbol of a rule text. -/
inductive Symbol where
  /-- A blank, a dot, a comma or a parenthesis. -/
  | mark (c : Char)
  /-- A quoted string, with the text that it stands for. -/
  | quoted (quote : Char) (inner : List Char)
  /-- A token without quotes. -/
  | word (w : List Char)
  /-- An element of a list without quotes. -/
  | element (w : List Char)
deriving DecidableEq

/-- The characters that a symbol is written in. -/
def Symbol.text : Symbol → List Char
  | mark c => [c]
  | quoted quote inner => quote :: doubled quote inner ++ [quote]
  | word w | element w => w

/-- The characters of a symbol that is written without quotes and has more than one character. -/
def Symbol.bare : Symbol → List Char
  | mark _ | quoted _ _ => []
  | word w | element w => w

/-- The characters of a symbol that stand outside quoted strings. -/
def Symbol.outside : Symbol → List Char
  | mark c => [c]
  | quoted _ _ => []
  | word w | element w => w

/-- Where a symbol begins. -/
inductive Place where
  /-- Outside of lists. The flag tells whether the last token is a comparison operator. -/
  | rule (afterOperator : Bool)
  /-- In a list. -/
  | list
deriving DecidableEq

namespace Place

/-- The place after a quoted string. -/
def afterString : Place → Place
  | rule _ => .rule false
  | list => .list

/-- The place after a character that is a symbol of its own. -/
def afterMark (c : Char) : Place → Place
  | rule afterOperator => if c = '(' && afterOperator then .list else .rule false
  | list => if c = ')' then .rule false else .list

/-- Whether a character is a symbol of its own. -/
def isMark (c : Char) : Place → Bool
  | rule _ => isDelimiter c
  | list => c == ',' || c == ')'

/-- The symbol of some characters without quotes. -/
def bareSymbol (w : List Char) : Place → Symbol
  | rule _ => .word w
  | list => .element w

/-- The place after some characters without quotes. -/
def afterBare (w : List Char) : Place → Place
  | rule _ => .rule (Operator.ofKeyword? (String.ofList w)).isSome
  | list => .list

end Place

/-- Cuts a text into symbols. A quoted string that is never closed is taken for a word. -/
def symbols (place : Place) (text : List Char) : List Symbol :=
  match text with
  | [] => []
  | c :: rest =>
    if isBlank c then .mark c :: symbols place rest
    else if isQuote c then
      match _h : unquote c rest with
      | some (inner, after) => .quoted c inner :: symbols place.afterString after
      | none => [.word (c :: rest)]
    else if place.isMark c then .mark c :: symbols (place.afterMark c) rest
    else
      let w := c :: rest.takeWhile (!place.isMark ·)
      place.bareSymbol w :: symbols (place.afterBare w) (rest.dropWhile (!place.isMark ·))
termination_by text.length
decreasing_by
  · simp
  · have := length_unquote_lt _h
    simp only [List.length_cons]
    omega
  · simp
  · have := (List.dropWhile_sublist (l := rest) (!place.isMark ·)).length_le
    simp only [List.length_cons]
    omega

/-- A text without the stretches that look like quoted strings. One that is never closed goes on to
the end. The character before the text is given, if there is one. -/
def outsideStrings (previous : Option Char) (text : List Char) : List Char :=
  match text with
  | [] => []
  | c :: rest =>
    if isQuote c && GroupSearch.mayQuoteAfter previous then
      match _h : unquote c rest with
      | some (_, after) => outsideStrings (some c) after
      | none => []
    else c :: outsideStrings (some c) rest
termination_by text.length
decreasing_by
  · have := length_unquote_lt _h
    simp only [List.length_cons]
    omega
  · simp

/-- Nothing of a text is lost when it is cut into symbols. -/
theorem flatMap_text_symbols (place : Place) (text : List Char) :
    (symbols place text).flatMap Symbol.text = text := by
  fun_induction symbols place text with
  | case1 => rfl
  | case2 place c rest hblank ih => simp [Symbol.text, ih]
  | case3 place c rest hblank hquote inner after h ih =>
    obtain ⟨rfl, -⟩ := unquote_eq_some.1 h
    simp [Symbol.text, ih]
  | case4 place c rest hblank hquote h => simp [Symbol.text]
  | case5 place c rest hblank hquote hmark ih => simp [Symbol.text, ih]
  | case6 place c rest hblank hquote hmark w ih =>
    have hw : (place.bareSymbol w).text = w := by cases place <;> rfl
    rw [List.flatMap_cons, hw, ih, List.cons_append, List.takeWhile_append_dropWhile]

/-! ## One symbol -/

section Symbols

variable {p : Place} {rest : List Char}

theorem not_isQuote_of_isBlank {c : Char} (h : isBlank c = true) : isQuote c = false :=
  not_isQuote_of_isDelimiter (isDelimiter_of_isBlank h)

theorem symbols_nil : symbols p [] = [] := by rw [symbols]

theorem symbols_blank {c : Char} (h : isBlank c = true) :
    symbols p (c :: rest) = .mark c :: symbols p rest := by
  rw [symbols]
  simp [h]

theorem symbols_quoted {quote : Char} {inner after : List Char} (hquote : isQuote quote = true)
    (h : unquote quote rest = some (inner, after)) :
    symbols p (quote :: rest) = .quoted quote inner :: symbols p.afterString after := by
  have hblank : isBlank quote = false := by
    rcases isQuote_eq_true_iff.1 hquote with rfl | rfl <;> rfl
  rw [symbols]
  simp only [hblank, hquote, Bool.false_eq_true, if_false, if_true]
  split
  · rename_i inner' after' h'
    rw [h] at h'
    cases h'
    rfl
  · rename_i h'
    rw [h] at h'
    cases h'

theorem symbols_mark {c : Char} (hblank : isBlank c = false) (hquote : isQuote c = false)
    (h : p.isMark c = true) :
    symbols p (c :: rest) = .mark c :: symbols (p.afterMark c) rest := by
  rw [symbols]
  simp [hblank, hquote, h]

theorem symbols_bare {w : List Char} (hne : w ≠ [])
    (hhead : ∀ c ∈ w.head?, isBlank c = false ∧ isQuote c = false)
    (hw : ∀ c ∈ w, p.isMark c = false) (hrest : ∀ c ∈ rest.head?, p.isMark c = true) :
    symbols p (w ++ rest) = p.bareSymbol w :: symbols (p.afterBare w) rest := by
  obtain ⟨c, w, rfl⟩ := List.exists_cons_of_ne_nil hne
  obtain ⟨hblank, hquote⟩ := hhead c rfl
  have hmark : p.isMark c = false := hw c List.mem_cons_self
  have htail : ∀ d ∈ w, (!p.isMark d) = true := by
    intro d hd
    rw [hw d (List.mem_cons_of_mem _ hd)]
    rfl
  have hstop : ∀ d ∈ rest.head?, (!p.isMark d) = false := by simpa using hrest
  rw [List.cons_append, symbols]
  simp only [hblank, hquote, hmark, Bool.false_eq_true, if_false, takeWhile_stretch htail hstop,
    dropWhile_stretch htail hstop]

end Symbols

/-! ## Text that looks like strings -/

section Outside

variable {previous : Option Char} {rest : List Char}

theorem outsideStrings_nil : outsideStrings previous [] = [] := by rw [outsideStrings]

theorem outsideStrings_quoted {quote : Char} {inner after : List Char}
    (hquote : isQuote quote = true) (hplace : QuotePlace previous)
    (h : unquote quote rest = some (inner, after)) :
    outsideStrings previous (quote :: rest) = outsideStrings (some quote) after := by
  rw [outsideStrings]
  simp only [hquote, GroupSearch.mayQuoteAfter_eq_true.2 hplace, Bool.and_self, if_true]
  split
  · rename_i inner' after' h'
    rw [h] at h'
    cases h'
    rfl
  · rename_i h'
    rw [h] at h'
    cases h'

theorem outsideStrings_cons {c : Char} (h : isQuote c = true → ¬ QuotePlace previous) :
    outsideStrings previous (c :: rest) = c :: outsideStrings (some c) rest := by
  have hno : ¬ (isQuote c && GroupSearch.mayQuoteAfter previous) = true := by
    rw [Bool.and_eq_true, GroupSearch.mayQuoteAfter_eq_true]
    exact fun hand => h hand.1 hand.2
  rw [outsideStrings]
  rw [if_neg hno]

/-- Where no quoted string seems to begin, nothing is left out. -/
theorem outsideStrings_append {w : List Char} (h : QuotesInside previous w) (rest : List Char) :
    ∃ last, outsideStrings previous (w ++ rest) = w ++ outsideStrings last rest := by
  induction w generalizing previous with
  | nil => exact ⟨previous, rfl⟩
  | cons c w ih =>
    obtain ⟨hc, hw⟩ := h
    obtain ⟨last, hlast⟩ := ih hw
    refine ⟨last, ?_⟩
    rw [List.cons_append, outsideStrings_cons hc, hlast]
    rfl

end Outside

end Eligibility
