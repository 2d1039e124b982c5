import Eligibility.Proofs.Escaping
import Eligibility.Toml.Printer

/-!
# TOML strings are read back

In each of its four forms a written string is read as its text, whatever follows it, as long as this
is not one more quote. In the long forms a run of quotes needs care: the reader takes the first
three in a row for the closing ones, together with two more.
-/

namespace Eligibility.Toml

variable {text rest : List Char} {c : Char}

/-! ## Escapes -/

/-- Whether the reader of a long string takes a backslash before the character for the end of a
line. -/
def continuesLine (c : Char) : Bool := isBlank c || c == '\n' || c == '\r'

/-- An escape of a character is one that is read as the character. -/
structure Escapes (c : Char) (code : List Char) : Prop where
  /-- The reader takes the whole escape. -/
  reads : ∀ rest, readEscape (code ++ rest) = some (c, rest)
  /-- The backslash before it does not end a line. -/
  inLine : ∃ d more, code = d :: more ∧ continuesLine d = false

/-- A character that may stand in a string as it is. -/
structure Stands (c : Char) : Prop where
  ne_backslash : c ≠ '\\'
  not_isForbidden : isForbidden c = false
  ne_break : c ≠ '\n'
  ne_return : c ≠ '\r'

theorem escapes_quote : Escapes '"' ['"'] := ⟨fun _ => rfl, '"', [], rfl, rfl⟩

theorem escapes_letter {letter : Char} (h : (c, letter) ∈ escapeLetters) : Escapes c [letter] := by
  have hletters : ∀ p ∈ escapeLetters, p.2 ≠ 'x' ∧ p.2 ≠ 'u' ∧ p.2 ≠ 'U' ∧
      escapes.lookup p.2 = some p.1 ∧ continuesLine p.2 = false := by
    decide
  obtain ⟨hx, hu, hU, hlookup, hline⟩ := hletters _ h
  refine ⟨fun rest => ?_, letter, [], rfl, hline⟩
  simp only at hx hu hU hlookup
  simp [readEscape, hx, hu, hU, hlookup]

theorem isForbidden_lt (h : isForbidden c = true) : c.toNat < 0x10000 := by
  simp only [isForbidden, Bool.or_eq_true, Bool.and_eq_true, decide_eq_true_eq, beq_iff_eq] at h
  omega

theorem escapes_digits (h : isForbidden c = true) :
    Escapes c ('u' :: Hexadecimal.digits Hexadecimal.upperDigit 4 c.toNat) :=
  ⟨fun rest => Hexadecimal.readChar_digits (isForbidden_lt h) rest, 'u', _, rfl, rfl⟩

/-- A character stands for itself, or for an escape of it. -/
theorem escaped_cases (c : Char) :
    (escaped c = [c] ∧ Stands c) ∨ ∃ code, escaped c = '\\' :: code ∧ Escapes c code := by
  unfold escaped
  cases hletter : escapeLetters.lookup c with
  | some letter => exact .inr ⟨[letter], rfl, escapes_letter (mem_of_lookup hletter)⟩
  | none =>
    have hne : ∀ p ∈ escapeLetters, c ≠ p.1 := fun p hp => by
      simpa using List.lookup_eq_none_iff.1 hletter p hp
    by_cases hforbidden : isForbidden c = true
    · rw [if_pos hforbidden]
      exact .inr ⟨_, rfl, escapes_digits hforbidden⟩
    · rw [if_neg hforbidden]
      have hbackslash : c ≠ '\\' := hne ('\\', '\\') (by decide)
      have hbreak : c ≠ '\n' := hne ('\n', 'n') (by decide)
      have hreturn : c ≠ '\r' := hne ('\r', 'r') (by decide)
      exact .inl ⟨rfl, hbackslash, by simpa using hforbidden, hbreak, hreturn⟩

/-! ## Strings on a line -/

theorem readBasic_escape {code : List Char} (h : Escapes c code) (rest : List Char) :
    readBasic ('\\' :: code ++ rest) = prepend c (readBasic rest) := by
  have hread := h.reads rest
  rw [List.cons_append, readBasic]
  simp only [if_neg (show ¬ '\\' = '"' by decide), if_true]
  split
  · rename_i hsome
    rw [hread] at hsome
    cases hsome
    rfl
  · rename_i hnone
    rw [hread] at hnone
    cases hnone

theorem readBasic_stands (h : Stands c) (hquote : c ≠ '"') (rest : List Char) :
    readBasic (c :: rest) = prepend c (readBasic rest) := by
  rw [readBasic]
  simp [hquote, h.ne_backslash, h.not_isForbidden]

theorem readBasic_basicText (text rest : List Char) :
    readBasic (basicText text ++ '"' :: rest) = some (text, rest) := by
  induction text with
  | nil =>
    rw [basicText, List.flatMap_nil, List.nil_append, readBasic]
    rfl
  | cons c text ih =>
    have hcons : basicText (c :: text) ++ '"' :: rest =
        (if c = '"' then ['\\', '"'] else escaped c) ++ (basicText text ++ '"' :: rest) := by
      simp [basicText]
    have hone : readBasic (basicText (c :: text) ++ '"' :: rest) =
        prepend c (readBasic (basicText text ++ '"' :: rest)) := by
      rw [hcons]
      by_cases hquote : c = '"'
      · subst hquote
        exact readBasic_escape escapes_quote _
      · rw [if_neg hquote]
        rcases escaped_cases c with ⟨hself, hstands⟩ | ⟨code, hcode, hescapes⟩
        · rw [hself]
          exact readBasic_stands hstands hquote _
        · rw [hcode]
          exact readBasic_escape hescapes _
    rw [hone, ih]
    rfl

theorem readLiteral_append (h : ∀ c ∈ text, c ≠ '\'' ∧ isForbidden c = false) (rest : List Char) :
    readLiteral (text ++ '\'' :: rest) = some (text, rest) := by
  induction text with
  | nil => rfl
  | cons c text ih =>
    obtain ⟨hquote, hforbidden⟩ := h c List.mem_cons_self
    rw [List.cons_append, readLiteral, if_neg hquote, hforbidden,
      ih fun d hd => h d (List.mem_cons_of_mem c hd)]
    rfl

/-! ## Closing quotes -/

theorem closing?_of_ne {quote : Char} (h : c ≠ quote) (rest : List Char) :
    closing? quote (c :: rest) = none := by
  unfold closing?
  split
  · rename_i heq
    obtain ⟨rfl, rfl⟩ := List.cons.inj heq
    simp [h]
  · rfl

theorem closing?_second {quote : Char} (h : c ≠ quote) (rest : List Char) :
    closing? quote (quote :: c :: rest) = none := by
  cases rest with
  | nil => rfl
  | cons d rest => simp [closing?, h]

theorem closing?_third {quote : Char} (h : c ≠ quote) (rest : List Char) :
    closing? quote (quote :: quote :: c :: rest) = none := by
  simp [closing?, h]

/-- The closing quotes right here. -/
theorem closing?_none {quote : Char} (h : rest.head? ≠ some quote) :
    closing? quote (quote :: quote :: quote :: rest) = some ([], rest) := by
  cases rest with
  | nil => simp [closing?]
  | cons d rest =>
    have hd : d ≠ quote := by simpa using h
    simp [closing?, hd]

/-- The closing quotes after one more. -/
theorem closing?_one {quote : Char} (h : rest.head? ≠ some quote) :
    closing? quote (quote :: quote :: quote :: quote :: rest) = some ([quote], rest) := by
  cases rest with
  | nil => simp [closing?]
  | cons d rest =>
    have hd : d ≠ quote := by simpa using h
    simp [closing?, hd]

/-- The closing quotes after two more. -/
theorem closing?_two {quote : Char} (rest : List Char) :
    closing? quote (quote :: quote :: quote :: quote :: quote :: rest) =
      some ([quote, quote], rest) := by
  simp [closing?]

/-! ## Basic strings on several lines -/

theorem readLongBasic_closing {extra after : List Char}
    (h : closing? '"' (c :: rest) = some (extra, after)) :
    readLongBasic .nothing (c :: rest) = some (extra, after) := by
  rw [readLongBasic]
  simp [h]

theorem readLongBasic_stands (h : Stands c) (hclosing : closing? '"' (c :: rest) = none) :
    readLongBasic .nothing (c :: rest) = prepend c (readLongBasic .nothing rest) := by
  rw [readLongBasic]
  simp [hclosing, h.ne_backslash, h.ne_return, h.not_isForbidden]

theorem readLongBasic_break (rest : List Char) :
    readLongBasic .nothing ('\n' :: rest) = prepend '\n' (readLongBasic .nothing rest) := by
  have hclosing : closing? '"' ('\n' :: rest) = none := closing?_of_ne (by decide) rest
  rw [readLongBasic]
  simp [hclosing]

theorem readLongBasic_escape {code : List Char} (h : Escapes c code) (rest : List Char) :
    readLongBasic .nothing ('\\' :: code ++ rest) = prepend c (readLongBasic .nothing rest) := by
  obtain ⟨d, more, rfl, hline⟩ := h.inLine
  have hread := h.reads rest
  have hclosing : closing? '"' ('\\' :: (d :: more ++ rest)) = none := closing?_of_ne (by decide) _
  have hhead : ((d :: more ++ rest).head?.any fun d => isBlank d || d == '\n' || d == '\r') =
      false := hline
  rw [List.cons_append, readLongBasic]
  simp only [hclosing, hhead, ne_eq, not_true_eq_false, decide_false, Bool.false_and,
    Bool.false_eq_true, if_false, if_true, reduceCtorEq]
  split
  · rename_i hsome
    rw [hread] at hsome
    cases hsome
    rfl
  · rename_i hnone
    rw [hread] at hnone
    cases hnone

theorem longBasicText_quote {quotes : Nat} (h : quotes < 2) (text : List Char) :
    longBasicText quotes ('"' :: text) = '"' :: longBasicText (quotes + 1) text := by
  rw [longBasicText, if_pos rfl, if_pos h]

theorem longBasicText_thirdQuote {quotes : Nat} (h : ¬ quotes < 2) (text : List Char) :
    longBasicText quotes ('"' :: text) = '\\' :: '"' :: longBasicText 0 text := by
  rw [longBasicText, if_pos rfl, if_neg h]

theorem longBasicText_break (quotes : Nat) (text : List Char) :
    longBasicText quotes ('\n' :: text) = '\n' :: longBasicText 0 text := by
  rw [longBasicText, if_neg (by decide), if_pos rfl]

theorem longBasicText_other (quotes : Nat) (hquote : c ≠ '"') (hbreak : c ≠ '\n')
    (text : List Char) :
    longBasicText quotes (c :: text) = escaped c ++ longBasicText 0 text := by
  rw [longBasicText, if_neg hquote, if_neg hbreak]

/-- Other characters, and every third quote, begin with something else than a quote. -/
theorem exists_longBasicText_cons {quotes : Nat} (h : c ≠ '"' ∨ ¬ quotes < 2) (text : List Char) :
    ∃ d more, longBasicText quotes (c :: text) = d :: more ∧ d ≠ '"' := by
  by_cases hquote : c = '"'
  · subst hquote
    have hthird : ¬ quotes < 2 := h.resolve_left (fun hne => hne rfl)
    exact ⟨_, _, longBasicText_thirdQuote hthird text, by decide⟩
  · by_cases hbreak : c = '\n'
    · subst hbreak
      exact ⟨_, _, longBasicText_break quotes text, by decide⟩
    · rw [longBasicText_other quotes hquote hbreak]
      rcases escaped_cases c with ⟨hself, -⟩ | ⟨code, hcode, -⟩
      · exact ⟨c, _, by rw [hself]; rfl, hquote⟩
      · exact ⟨'\\', _, by rw [hcode]; rfl, by decide⟩

/-- A quote of a run begins the closing ones only if nothing but the run is left. -/
theorem closing?_longBasicText {quotes : Nat} (hquotes : quotes < 2) (text : List Char)
    (hrest : rest.head? ≠ some '"') :
    closing? '"' ('"' :: (longBasicText (quotes + 1) text ++ '"' :: '"' :: '"' :: rest)) =
        some ('"' :: text, rest) ∨
      closing? '"' ('"' :: (longBasicText (quotes + 1) text ++ '"' :: '"' :: '"' :: rest)) = none := by
  cases text with
  | nil => exact .inl (closing?_one hrest)
  | cons c text =>
    by_cases hother : c ≠ '"' ∨ ¬ quotes + 1 < 2
    · obtain ⟨d, more, hmore, hd⟩ := exists_longBasicText_cons hother text
      rw [hmore]
      exact .inr (closing?_second hd _)
    · have hc : c = '"' := Decidable.byContradiction fun h => hother (.inl h)
      have hless : quotes + 1 < 2 := Decidable.byContradiction fun h => hother (.inr h)
      subst hc
      rw [longBasicText_quote hless]
      cases text with
      | nil => exact .inl (closing?_two rest)
      | cons d text =>
        have hthird : ¬ quotes + 1 + 1 < 2 := by omega
        obtain ⟨x, more, hmore, hx⟩ := exists_longBasicText_cons (c := d) (.inr hthird) text
        rw [hmore]
        exact .inr (closing?_third hx _)

theorem stands_quote : Stands '"' := ⟨by decide, by decide, by decide, by decide⟩

theorem readLongBasic_longBasicText (quotes : Nat) (text : List Char)
    (hrest : rest.head? ≠ some '"') :
    readLongBasic .nothing (longBasicText quotes text ++ '"' :: '"' :: '"' :: rest) =
      some (text, rest) := by
  -- with the length of the run of quotes before the text
  induction text generalizing quotes with
  | nil => exact readLongBasic_closing (closing?_none hrest)
  | cons c text ih =>
    by_cases hquote : c = '"'
    · subst hquote
      by_cases hless : quotes < 2
      · rw [longBasicText_quote hless, List.cons_append]
        rcases closing?_longBasicText hless text hrest with hclosing | hclosing
        · exact readLongBasic_closing hclosing
        · rw [readLongBasic_stands stands_quote hclosing, ih]
          rfl
      · rw [longBasicText_thirdQuote hless]
        have hescape := readLongBasic_escape escapes_quote
          (longBasicText 0 text ++ '"' :: '"' :: '"' :: rest)
        rw [ih] at hescape
        exact hescape
    · by_cases hbreak : c = '\n'
      · subst hbreak
        rw [longBasicText_break, List.cons_append, readLongBasic_break, ih]
        rfl
      · rw [longBasicText_other quotes hquote hbreak, List.append_assoc]
        rcases escaped_cases c with ⟨hself, hstands⟩ | ⟨code, hcode, hescapes⟩
        · have hclosing := closing?_of_ne hquote
            (longBasicText 0 text ++ '"' :: '"' :: '"' :: rest)
          rw [hself, List.singleton_append, readLongBasic_stands hstands hclosing, ih]
          rfl
        · rw [hcode, readLongBasic_escape hescapes, ih]
          rfl

/-! ## Literal strings on several lines -/

theorem readLongLiteral_closing {extra after : List Char}
    (h : closing? '\'' (c :: rest) = some (extra, after)) :
    readLongLiteral (c :: rest) = some (extra, after) := by
  rw [readLongLiteral]
  simp [h]

theorem readLongLiteral_cons (hneeds : needsCode c = false)
    (hclosing : closing? '\'' (c :: rest) = none) :
    readLongLiteral (c :: rest) = prepend c (readLongLiteral rest) := by
  have hreturn : c ≠ '\r' := by
    rintro rfl
    exact absurd hneeds (by decide)
  have hneeds' : (isForbidden c && c != '\n') = false := hneeds
  rw [readLongLiteral]
  simp [hclosing, hreturn, hneeds']

theorem le_longestRunFrom (quote : Char) (before : Nat) (text : List Char) :
    before ≤ longestRunFrom quote before text := by
  induction text generalizing before with
  | nil => exact Nat.le_refl _
  | cons c text ih =>
    rw [longestRunFrom]
    split
    · exact Nat.le_trans (Nat.le_succ before) (ih _)
    · exact Nat.le_max_left _ _

theorem longestRunFrom_mono (quote : Char) {before more : Nat} (h : before ≤ more)
    (text : List Char) : longestRunFrom quote before text ≤ longestRunFrom quote more text := by
  induction text generalizing before more with
  | nil => exact h
  | cons c text ih =>
    rw [longestRunFrom, longestRunFrom]
    split
    · exact ih (Nat.succ_le_succ h)
    · omega

theorem longestRun_tail_le (quote : Char) (c : Char) (text : List Char) :
    longestRun quote text ≤ longestRun quote (c :: text) := by
  rw [longestRun, longestRun, longestRunFrom]
  split
  · exact longestRunFrom_mono quote (Nat.zero_le 1) text
  · exact Nat.le_max_right _ _

/-- A quote in a text without three in a row begins the closing ones only if nothing but a run is
left. -/
theorem closing?_of_longestRun {quote : Char} (hrun : longestRun quote (quote :: text) ≤ 2)
    (hrest : rest.head? ≠ some quote) :
    closing? quote (quote :: (text ++ quote :: quote :: quote :: rest)) =
        some (quote :: text, rest) ∨
      closing? quote (quote :: (text ++ quote :: quote :: quote :: rest)) = none := by
  cases text with
  | nil => exact .inl (closing?_one hrest)
  | cons c text =>
    by_cases hc : c = quote
    · subst hc
      cases text with
      | nil => exact .inl (closing?_two rest)
      | cons d text =>
        have hd : d ≠ c := by
          rintro rfl
          have hthree : 3 ≤ longestRunFrom d 3 text := le_longestRunFrom d 3 text
          have hsame : longestRun d (d :: d :: d :: text) = longestRunFrom d 3 text := by
            simp [longestRun, longestRunFrom]
          omega
        exact .inr (closing?_third hd _)
    · exact .inr (closing?_second hc _)

theorem readLongLiteral_append (hneeds : ∀ c ∈ text, needsCode c = false)
    (hrun : longestRun '\'' text ≤ 2) (hrest : rest.head? ≠ some '\'') :
    readLongLiteral (text ++ '\'' :: '\'' :: '\'' :: rest) = some (text, rest) := by
  induction text with
  | nil => exact readLongLiteral_closing (closing?_none hrest)
  | cons c text ih =>
    have htail := ih (fun d hd => hneeds d (List.mem_cons_of_mem c hd))
      (Nat.le_trans (longestRun_tail_le _ c text) hrun)
    have hclosing : closing? '\'' (c :: (text ++ '\'' :: '\'' :: '\'' :: rest)) =
          some (c :: text, rest) ∨
        closing? '\'' (c :: (text ++ '\'' :: '\'' :: '\'' :: rest)) = none := by
      by_cases hc : c = '\''
      · subst hc
        exact closing?_of_longestRun hrun hrest
      · exact .inr (closing?_of_ne hc _)
    rw [List.cons_append]
    rcases hclosing with hclosing | hclosing
    · exact readLongLiteral_closing hclosing
    · rw [readLongLiteral_cons (hneeds c List.mem_cons_self) hclosing, htail]
      rfl

end Eligibility.Toml
