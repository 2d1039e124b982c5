import Mathlib.Data.List.TakeWhile
import Eligibility.Proofs.Escaping
import Eligibility.Proofs.Stretches
import Eligibility.Yaml.Printer
import Eligibility.Yaml.Scalar

/-!
# YAML scalars on the line are read back

A scalar that is written plain or between quotes is read as its text. The readers take a run of
blanks and line breaks at once and fold it; what is written has only runs of blanks, which stand for
themselves, and between single quotes line breaks that are no line feeds, which stand for themselves
together with the blanks behind them.
-/

namespace Eligibility.Yaml

variable {text rest after : List Char} {c : Char}

/-! ## Characters -/

theorem isSpacing_of_isPrintable (h : isPrintable c = true) (hspacing : isSpacing c = true) :
    c = ' ' ∨ isBreak c = true := by
  simp only [isSpacing, isBlank, Bool.or_eq_true, beq_iff_eq] at hspacing
  rcases hspacing with (rfl | rfl) | hbreak
  · exact .inl rfl
  · exact absurd h (by decide)
  · exact .inr hbreak

theorem isSpacing_of_isBreak (h : isBreak c = true) : isSpacing c = true := by
  simp [isSpacing, h]

/-- What is no spacing for the readers of scalars. -/
theorem not_isSpacing (hprintable : isPrintable c = true) (hblank : c ≠ ' ')
    (hbreak : isBreak c = false) : isSpacing c = false := by
  cases hspacing : isSpacing c with
  | false => rfl
  | true =>
    rcases isSpacing_of_isPrintable hprintable hspacing with h | h
    · exact absurd h hblank
    · rw [hbreak] at h
      cases h

theorem spacing_of_head (h : ∀ d ∈ text.head?, isSpacing d = false) : spacing text = [] :=
  takeWhile_append_of_head h []

theorem afterSpacing_of_head (h : ∀ d ∈ text.head?, isSpacing d = false) :
    afterSpacing text = text :=
  dropWhile_append_of_head h []

theorem spacing_append {run : List Char} (hrun : ∀ d ∈ run, isSpacing d = true)
    (h : ∀ d ∈ text.head?, isSpacing d = false) : spacing (run ++ text) = run :=
  takeWhile_stretch hrun h

theorem afterSpacing_append {run : List Char} (hrun : ∀ d ∈ run, isSpacing d = true)
    (h : ∀ d ∈ text.head?, isSpacing d = false) : afterSpacing (run ++ text) = text :=
  dropWhile_stretch hrun h

theorem folded_of_not_hasBreak {run : List Char} (h : hasBreak run = false) : folded run = run := by
  have hfilter : run.filter isBreak = [] := by
    rw [List.filter_eq_nil_iff]
    intro d hd hbreak
    have hany : run.any isBreak = true := List.any_eq_true.2 ⟨d, hd, hbreak⟩
    rw [hasBreak] at h
    rw [h] at hany
    cases hany
  rw [folded, hfilter]

theorem breaksOff_of_not_hasBreak {run : List Char} (h : hasBreak run = false) :
    breaksOff run after = false := by
  simp [breaksOff, h]

/-! ## Runs of blanks -/

theorem prepend_prepend (a b : List Char) (result : Option (List Char × List Char)) :
    prepend a (prepend b result) = prepend (a ++ b) result := by
  cases result <;> simp [prepend]

/-- A reader takes a run of spacing at once, and folds it. -/
def FoldsSpacing (read : List Char → Option (List Char × List Char)) : Prop :=
  ∀ c rest, isSpacing c = true →
    breaksOff (spacing (c :: rest)) (afterSpacing (c :: rest)) = false →
    read (c :: rest) =
      prepend (folded (spacing (c :: rest))) (read (afterSpacing (c :: rest)))

/-- Where no line ends, a blank stands for itself, whatever blanks follow it. -/
theorem FoldsSpacing.blank {read : List Char → Option (List Char × List Char)}
    (hread : FoldsSpacing read) (h : hasBreak (spacing text) = false) :
    read (' ' :: text) = prepend [' '] (read text) := by
  have hspacing : spacing (' ' :: text) = ' ' :: spacing text := rfl
  have hafter : afterSpacing (' ' :: text) = afterSpacing text := rfl
  have hrun : hasBreak (' ' :: spacing text) = false := h
  have hblank : read (' ' :: text) = prepend (' ' :: spacing text) (read (afterSpacing text)) := by
    rw [hread ' ' text rfl, hspacing, hafter, folded_of_not_hasBreak hrun]
    rw [hspacing]
    exact breaksOff_of_not_hasBreak hrun
  rw [hblank]
  cases text with
  | nil => rfl
  | cons d text =>
    by_cases hd : isSpacing d = true
    · rw [hread d text hd (breaksOff_of_not_hasBreak h), folded_of_not_hasBreak h, prepend_prepend]
      rfl
    · have hhead : ∀ x ∈ (d :: text).head?, isSpacing x = false := by simpa using hd
      rw [spacing_of_head hhead, afterSpacing_of_head hhead]

theorem foldsSpacing_readDouble : FoldsSpacing readDouble := by
  intro c rest hc hbreaks
  rw [readDouble, dif_pos hc]
  simp only [hbreaks, Bool.false_eq_true, if_false]

theorem foldsSpacing_readSingle : FoldsSpacing readSingle := by
  intro c rest hc hbreaks
  rw [readSingle.eq_def]
  simp only [hc, dif_pos, hbreaks, Bool.false_eq_true, if_false]

/-! ## Between double quotes -/

/-- The characters that are written inside a line. -/
def StandsOnLine (c : Char) : Prop := isPrintable c = true ∧ isBreak c = false

instance (c : Char) : Decidable (StandsOnLine c) := inferInstanceAs (Decidable (_ ∧ _))

/-- An escape of a character, after its backslash. -/
structure Escapes (c : Char) (code : List Char) : Prop where
  reads : ∀ rest, readEscape (code ++ rest) = some (c, rest)
  nonempty : code ≠ []
  onLine : ∀ d ∈ code, StandsOnLine d
  length_lt : code.length < 4 * c.utf8Size

theorem escapes_letter {letter : Char} (h : (c, letter) ∈ escapeLetters) : Escapes c [letter] := by
  have hletters : ∀ p ∈ escapeLetters, p.2 ≠ 'x' ∧ p.2 ≠ 'u' ∧ p.2 ≠ 'U' ∧
      escapes.lookup p.2 = some p.1 ∧ StandsOnLine p.2 := by
    decide
  obtain ⟨hx, hu, hU, hlookup, hline⟩ := hletters _ h
  have hsize := c.utf8Size_pos
  refine ⟨fun rest => ?_, List.cons_ne_nil letter [], by simpa using hline, ?_⟩
  · simp only at hx hu hU hlookup
    simp [readEscape, hx, hu, hU, hlookup]
  · rw [List.length_singleton]
    omega

theorem length_digits (digit : Nat → Char) (width n : Nat) :
    (Hexadecimal.digits digit width n).length = width := by
  induction width generalizing n with
  | zero => rfl
  | succ width ih => simp [Hexadecimal.digits, ih]

theorem standsOnLine_digits {width n : Nat} {d : Char}
    (h : d ∈ Hexadecimal.digits Hexadecimal.upperDigit width n) : StandsOnLine d := by
  have hdigit : ∀ k < 16, StandsOnLine (Hexadecimal.upperDigit k) := by decide
  induction width generalizing n with
  | zero => cases h
  | succ width ih =>
    rcases List.mem_append.1 h with h | h
    · exact ih h
    · rw [List.mem_singleton.1 h]
      exact hdigit (n % 16) (Nat.mod_lt n (by decide))

theorem escapes_digits {letter : Char} {width : Nat} (hletter : StandsOnLine letter)
    (hreads : ∀ rest, readEscape (letter :: rest) = Hexadecimal.readChar width rest)
    (hnumber : c.toNat < Nat.pow 16 width) (hwidth : width + 1 < 4 * c.utf8Size) :
    Escapes c (letter :: Hexadecimal.digits Hexadecimal.upperDigit width c.toNat) where
  reads := fun rest => by
    rw [List.cons_append, hreads]
    exact Hexadecimal.readChar_digits hnumber rest
  nonempty := List.cons_ne_nil letter _
  onLine := by
    intro d hd
    rcases List.mem_cons.1 hd with rfl | hd
    · exact hletter
    · exact standsOnLine_digits hd
  length_lt := by rwa [List.length_cons, length_digits]

theorem escapes_escapedNumber (c : Char) : Escapes c (escapedNumber c.toNat) := by
  have hvalid : c.toNat < 0xD800 ∨ 0xDFFF < c.toNat ∧ c.toNat < 0x110000 := c.valid
  have hpos := c.utf8Size_pos
  have hone : c.utf8Size = 1 → c.toNat ≤ 0x7F := fun h => Char.utf8Size_eq_one_iff.1 h
  have htwo : c.utf8Size = 2 → c.toNat ≤ 0x7FF := fun h => (Char.utf8Size_eq_two_iff.1 h).2
  unfold escapedNumber
  split
  · have hnumber : c.toNat < 0x100 := by omega
    exact escapes_digits (by decide) (fun _ => rfl) hnumber (by omega)
  · split
    · have hnumber : c.toNat < 0x10000 := by omega
      exact escapes_digits (by decide) (fun _ => rfl) hnumber (by omega)
    · have hnumber : c.toNat < 0x100000000 := by omega
      exact escapes_digits (by decide) (fun _ => rfl) hnumber (by omega)

/-- A character stands for itself, or for an escape of it. -/
theorem escapedChar_cases (c : Char) :
    (escapedChar c = [c] ∧ isPrintable c = true ∧ isBreak c = false ∧ c ≠ '"' ∧ c ≠ '\\') ∨
      ∃ code, escapedChar c = '\\' :: code ∧ Escapes c code := by
  unfold escapedChar
  cases hletter : escapeLetters.lookup c with
  | some letter => exact .inr ⟨[letter], rfl, escapes_letter (mem_of_lookup hletter)⟩
  | none =>
    have hne : ∀ p ∈ escapeLetters, c ≠ p.1 := fun p hp => by
      simpa using List.lookup_eq_none_iff.1 hletter p hp
    have hfeed : c ≠ '\n' := hne ('\n', 'n') (by decide)
    have hline : c ≠ '\u2028' := hne ('\u2028', 'L') (by decide)
    have hparagraph : c ≠ '\u2029' := hne ('\u2029', 'P') (by decide)
    by_cases hprintable : isPrintable c = true
    · refine .inl ⟨if_pos hprintable, hprintable, ?_, hne ('"', '"') (by decide),
        hne ('\\', '\\') (by decide)⟩
      simp [isBreak, hfeed, hline, hparagraph]
    · exact .inr ⟨_, if_neg hprintable, escapes_escapedNumber c⟩

theorem readDouble_escape {code : List Char} (h : Escapes c code) (rest : List Char) :
    readDouble ('\\' :: code ++ rest) = prepend [c] (readDouble rest) := by
  have hread := h.reads rest
  have hhead : (code ++ rest).head?.any isBreak = false := by
    cases hcode : code with
    | nil => exact absurd hcode h.nonempty
    | cons d more => exact (h.onLine d (hcode ▸ List.mem_cons_self)).2
  rw [List.cons_append, readDouble, dif_neg (by decide), if_neg (by decide), if_pos rfl]
  simp only [hhead, Bool.false_eq_true, if_false]
  split
  · rename_i hsome
    rw [hread] at hsome
    cases hsome
    rfl
  · rename_i hnone
    rw [hread] at hnone
    cases hnone

theorem readDouble_plain (hspacing : isSpacing c = false) (hquote : c ≠ '"') (hbackslash : c ≠ '\\')
    (rest : List Char) : readDouble (c :: rest) = prepend [c] (readDouble rest) := by
  rw [readDouble, dif_neg (by simp [hspacing]), if_neg hquote, if_neg hbackslash]

/-- The line breaks of a text are escaped, so that no written line ends. -/
theorem not_hasBreak_spacing_double (text rest : List Char) :
    hasBreak (spacing (text.flatMap escapedChar ++ '"' :: rest)) = false := by
  induction text with
  | nil => rfl
  | cons c text ih =>
    rw [List.flatMap_cons, List.append_assoc]
    rcases escapedChar_cases c with ⟨hself, hprintable, hbreak, -, -⟩ | ⟨code, hcode, -⟩
    · rw [hself, List.singleton_append]
      by_cases hblank : c = ' '
      · subst hblank
        exact ih
      · have hc := not_isSpacing hprintable hblank hbreak
        rw [spacing_of_head (by simpa using hc)]
        rfl
    · rw [hcode]
      rfl

theorem readDouble_escaped (text rest : List Char) :
    readDouble (text.flatMap escapedChar ++ '"' :: rest) = some (text, rest) := by
  induction text with
  | nil =>
    rw [List.flatMap_nil, List.nil_append, readDouble, dif_neg (by decide), if_pos rfl]
  | cons c text ih =>
    rw [List.flatMap_cons, List.append_assoc]
    rcases escapedChar_cases c with
      ⟨hself, hprintable, hbreak, hquote, hbackslash⟩ | ⟨code, hcode, hescapes⟩
    · rw [hself, List.singleton_append]
      by_cases hblank : c = ' '
      · subst hblank
        rw [foldsSpacing_readDouble.blank (not_hasBreak_spacing_double text rest), ih]
        rfl
      · rw [readDouble_plain (not_isSpacing hprintable hblank hbreak) hquote hbackslash, ih]
        rfl
    · rw [hcode, readDouble_escape hescapes, ih]
      rfl

/-! ## Between single quotes -/

/-- The texts that may stand between single quotes on one line or several, without line feeds. -/
structure Tidy (text : List Char) : Prop where
  printable : ∀ c ∈ text, isPrintable c = true
  noFeed : '\n' ∉ text
  noBlankBefore : hasBlankBeforeBreak text = false
  noBlankAfter : hasBlankAfterBreak text = false

theorem Tidy.tail (h : Tidy (c :: text)) : Tidy text where
  printable := fun d hd => h.printable d (List.mem_cons_of_mem c hd)
  noFeed := fun hfeed => h.noFeed (List.mem_cons_of_mem c hfeed)
  noBlankBefore := by
    have := h.noBlankBefore
    simp only [hasBlankBeforeBreak, Bool.or_eq_false_iff] at this
    exact this.2
  noBlankAfter := by
    have := h.noBlankAfter
    simp only [hasBlankAfterBreak, Bool.or_eq_false_iff] at this
    exact this.2

theorem Tidy.head?_of_blank (h : Tidy (' ' :: text)) : ∀ d ∈ text.head?, isBreak d = false := by
  have hbefore := h.noBlankBefore
  simp only [hasBlankBeforeBreak, Bool.or_eq_false_iff, beq_self_eq_true, Bool.true_and] at hbefore
  intro d hd
  have hd' : text.head? = some d := hd
  rw [hd'] at hbefore
  exact hbefore.1

theorem Tidy.head?_of_break (h : Tidy (c :: text)) (hbreak : isBreak c = true) :
    text.head? ≠ some ' ' := by
  have hafter := h.noBlankAfter
  simp only [hasBlankAfterBreak, Bool.or_eq_false_iff, hbreak, Bool.true_and] at hafter
  intro hblank
  rw [hblank] at hafter
  exact absurd hafter.1 (by decide)

theorem singleText_quote (text : List Char) :
    singleText false ('\'' :: text) = '\'' :: '\'' :: singleText false text := rfl

theorem singleText_break (afterBreak : Bool) (h : isBreak c = true) (text : List Char) :
    singleText afterBreak (c :: text) = c :: singleText true text := by
  rw [singleText, if_pos h]

theorem singleText_other (h : isBreak c = false) (hquote : c ≠ '\'') (text : List Char) :
    singleText false (c :: text) = c :: singleText false text := by
  rw [singleText, if_neg (by simp [h]), if_neg hquote]
  rfl

/-- At the start of a line the blanks come first. -/
theorem singleText_lineStart (h : ∀ d ∈ text.head?, isBreak d = false) :
    singleText true text = indentation ++ singleText false text := by
  cases text with
  | nil => rfl
  | cons c text =>
    have hc : ¬ isBreak c = true := by simpa using h c rfl
    rw [singleText, singleText, if_neg hc, if_neg hc]
    simp

theorem readSingle_close (h : rest.head? ≠ some '\'') :
    readSingle ('\'' :: rest) = some ([], rest) := by
  rw [readSingle.eq_def]
  cases rest with
  | nil => rfl
  | cons d rest =>
    have hd : d ≠ '\'' := by simpa using h
    simp [isSpacing, isBlank, isBreak, hd]

theorem readSingle_quote (rest : List Char) :
    readSingle ('\'' :: '\'' :: rest) = prepend ['\''] (readSingle rest) := by
  rw [readSingle.eq_def]
  simp [isSpacing, isBlank, isBreak]

theorem readSingle_plain (hspacing : isSpacing c = false) (hquote : c ≠ '\'') (rest : List Char) :
    readSingle (c :: rest) = prepend [c] (readSingle rest) := by
  rw [readSingle.eq_def]
  simp [hspacing, hquote]

/-- A run of blanks in a tidy text does not reach the end of a line. -/
theorem not_hasBreak_spacing_single (h : Tidy (' ' :: text)) (rest : List Char) :
    hasBreak (spacing (singleText false text ++ '\'' :: rest)) = false := by
  induction text with
  | nil => rfl
  | cons c text ih =>
    have hbreak : isBreak c = false := h.head?_of_blank c rfl
    by_cases hquote : c = '\''
    · subst hquote
      rfl
    · rw [singleText_other hbreak hquote, List.cons_append]
      by_cases hblank : c = ' '
      · subst hblank
        exact ih h.tail
      · have hprintable := h.tail.printable c List.mem_cons_self
        have hc := not_isSpacing hprintable hblank hbreak
        rw [spacing_of_head (by simpa using hc)]
        rfl

theorem mem_indentation (h : c ∈ indentation) : c = ' ' := by
  simpa [indentation] using h

/-- Line breaks that are no line feeds stand for themselves, and the blanks behind them are left
out. -/
theorem readSingle_breaks {breaks : List Char} (hne : breaks ≠ [])
    (hbreaks : ∀ c ∈ breaks, isBreak c = true ∧ c ≠ '\n')
    (h : ∀ d ∈ text.head?, isSpacing d = false) :
    readSingle (breaks ++ (indentation ++ text)) = prepend breaks (readSingle text) := by
  have hrun : ∀ d ∈ breaks ++ indentation, isSpacing d = true := by
    intro d hd
    rcases List.mem_append.1 hd with hd | hd
    · exact isSpacing_of_isBreak (hbreaks d hd).1
    · rw [mem_indentation hd]
      rfl
  have hspacing : spacing (breaks ++ (indentation ++ text)) = breaks ++ indentation := by
    rw [← List.append_assoc]
    exact spacing_append hrun h
  have hafter : afterSpacing (breaks ++ (indentation ++ text)) = text := by
    rw [← List.append_assoc]
    exact afterSpacing_append hrun h
  have hcolumn : lastColumn (breaks ++ indentation) ≠ 0 := by
    simp [lastColumn, indentation, isBlank]
  have hfilter : (breaks ++ indentation).filter isBreak = breaks := by
    have hblanks : indentation.filter isBreak = [] := by decide
    rw [List.filter_append, hblanks, List.append_nil, List.filter_eq_self]
    exact fun d hd => (hbreaks d hd).1
  cases breaks with
  | nil => exact absurd rfl hne
  | cons first others =>
    obtain ⟨hfirst, hfeed⟩ := hbreaks first List.mem_cons_self
    have hfolded : folded (first :: others ++ indentation) = first :: others := by
      unfold folded
      rw [hfilter]
      simp [hfeed]
    have hoff : breaksOff (first :: others ++ indentation) text = false := by
      have : (lastColumn (first :: others ++ indentation) == 0) = false := by simpa using hcolumn
      simp only [breaksOff, this, Bool.and_false, Bool.false_and]
    rw [List.cons_append] at hspacing hafter ⊢
    rw [foldsSpacing_readSingle first _ (isSpacing_of_isBreak hfirst), hspacing, hafter, hfolded]
    rw [hspacing, hafter]
    exact hoff

/-- A tidy text is read back, from its beginning as well as behind line breaks. -/
theorem readSingle_singleText_both (h : Tidy text) (hrest : rest.head? ≠ some '\'') :
    readSingle (singleText false text ++ '\'' :: rest) = some (text, rest) ∧
      ∀ breaks, breaks ≠ [] → (∀ c ∈ breaks, isBreak c = true ∧ c ≠ '\n') →
        text.head? ≠ some ' ' →
          readSingle (breaks ++ (singleText true text ++ '\'' :: rest)) =
            some (breaks ++ text, rest) := by
  induction text with
  | nil =>
    refine ⟨readSingle_close hrest, fun breaks hne hbreaks _ => ?_⟩
    have hquote : ∀ d ∈ ('\'' :: rest).head?, isSpacing d = false := by
      simp [isSpacing, isBlank, isBreak]
    rw [singleText_lineStart (by simp), List.append_assoc]
    have hindented := readSingle_breaks hne hbreaks hquote
    rw [readSingle_close hrest] at hindented
    exact hindented
  | cons c text ih =>
    obtain ⟨ihInLine, ihBreaks⟩ := ih h.tail
    have hprintable := h.printable c List.mem_cons_self
    have hfeed : c ≠ '\n' := fun heq => h.noFeed (heq ▸ List.mem_cons_self)
    by_cases hbreak : isBreak c = true
    · -- a break is one more of the run before the next line
      have hhead := h.head?_of_break hbreak
      constructor
      · rw [singleText_break false hbreak]
        exact ihBreaks [c] (List.cons_ne_nil c []) (by simp [hbreak, hfeed]) hhead
      · intro breaks hne hbreaks _
        have hmore : ∀ d ∈ breaks ++ [c], isBreak d = true ∧ d ≠ '\n' := by
          intro d hd
          rcases List.mem_append.1 hd with hd | hd
          · exact hbreaks d hd
          · rw [List.mem_singleton.1 hd]
            exact ⟨hbreak, hfeed⟩
        have hrun := ihBreaks (breaks ++ [c]) (by simp) hmore hhead
        rw [singleText_break true hbreak, List.cons_append]
        simpa using hrun
    · have hbreak : isBreak c = false := by simpa using hbreak
      have hinLine : readSingle (singleText false (c :: text) ++ '\'' :: rest) =
          some (c :: text, rest) := by
        by_cases hquote : c = '\''
        · subst hquote
          rw [singleText_quote, List.cons_append, List.cons_append, readSingle_quote, ihInLine]
          rfl
        · rw [singleText_other hbreak hquote, List.cons_append]
          by_cases hblank : c = ' '
          · subst hblank
            rw [foldsSpacing_readSingle.blank (not_hasBreak_spacing_single h rest), ihInLine]
            rfl
          · rw [readSingle_plain (not_isSpacing hprintable hblank hbreak) hquote, ihInLine]
            rfl
      refine ⟨hinLine, fun breaks hne hbreaks hhead => ?_⟩
      have hblank : c ≠ ' ' := by simpa using hhead
      have hfirst : ∀ d ∈ (singleText false (c :: text) ++ '\'' :: rest).head?,
          isSpacing d = false := by
        by_cases hquote : c = '\''
        · subst hquote
          rw [singleText_quote]
          simp [isSpacing, isBlank, isBreak]
        · rw [singleText_other hbreak hquote]
          simpa using not_isSpacing hprintable hblank hbreak
      rw [singleText_lineStart (by simpa using hbreak), List.append_assoc,
        readSingle_breaks hne hbreaks hfirst, hinLine]
      rfl

theorem readSingle_singleText (h : Tidy text) (hrest : rest.head? ≠ some '\'') :
    readSingle (singleText false text ++ '\'' :: rest) = some (text, rest) :=
  (readSingle_singleText_both h hrest).1

/-! ## Plain scalars -/

/-- The texts that may go on as a plain scalar: on one line, without what ends a plain scalar, and
not ending with a blank. -/
structure GoesPlain (text : List Char) : Prop where
  printable : ∀ c ∈ text, isPrintable c = true ∧ isBreak c = false
  noIndicator : hasIndicator text = false
  noBlankLast : text.getLast? ≠ some ' '

theorem GoesPlain.tail (h : GoesPlain (c :: text)) : GoesPlain text where
  printable := fun d hd => h.printable d (List.mem_cons_of_mem c hd)
  noIndicator := by
    have := h.noIndicator
    simp only [hasIndicator, Bool.or_eq_false_iff] at this
    exact this.2
  noBlankLast := by
    intro hlast
    have := h.noBlankLast
    cases text with
    | nil => simp at hlast
    | cons d text =>
      rw [List.getLast?_cons_cons] at this
      exact this hlast

/-- The text after a plain scalar, where its reader stops: what is left then, and whether a line has
ended. -/
structure StopsPlain (indent : Nat) (text after : List Char) (endsLine : Bool) : Prop where
  ends : endsPlain false text = true
  stops : readPlainFrom false indent text = some ⟨[], after, endsLine⟩

/-- A character of a plain scalar that is neither a blank nor its end. -/
theorem endsPlain_false (h : GoesPlain (c :: text)) (hblank : c ≠ ' ') (rest : List Char) :
    endsPlain false (c :: text ++ rest) = false := by
  obtain ⟨hprintable, hbreak⟩ := h.printable c List.mem_cons_self
  have hspacing := not_isSpacing hprintable hblank hbreak
  have hcolon := h.noIndicator
  simp only [hasIndicator, Bool.or_eq_false_iff] at hcolon
  have hnocolon : (c == ':' && atSpacing (text ++ rest)) = false := by
    cases text with
    | nil =>
      have hc : (c == ':') = false := by simpa [atSpacing] using hcolon.1.1
      rw [hc, Bool.false_and]
    | cons d text => exact hcolon.1.1
  simp [endsPlain, hspacing, hnocolon]

theorem readWord_cons (h : endsPlain false (c :: rest) = false) :
    readWord false (c :: rest) = prepend [c] (readWord false rest) := by
  rw [readWord]
  simp [h]

theorem readWord_stop (h : endsPlain false rest = true) : readWord false rest = some ([], rest) := by
  cases rest with
  | nil => rfl
  | cons c rest =>
    rw [readWord]
    simp [h]

/-- A run of blanks before a word stands for itself. -/
theorem readPlainFrom_blanks {indent : Nat} {blanks word next : List Char} {p : Plain}
    (hne : blanks ≠ []) (hblanks : ∀ d ∈ blanks, d = ' ')
    (hfirst : ∀ d ∈ text.head?, isSpacing d = false) (hcomment : text.head? ≠ some '#')
    (hword : readWord false text = some (word, next)) (hwordne : word ≠ [])
    (hp : readPlainFrom false indent next = some p) :
    readPlainFrom false indent (blanks ++ text) =
      some { p with text := blanks ++ word ++ p.text } := by
  have hrun : ∀ d ∈ blanks, isSpacing d = true := fun d hd => by
    rw [hblanks d hd]
    rfl
  have hspacing : spacing (blanks ++ text) = blanks := spacing_append hrun hfirst
  have hafter : afterSpacing (blanks ++ text) = text := afterSpacing_append hrun hfirst
  have hnobreak : hasBreak blanks = false := by
    rw [hasBreak, List.any_eq_false]
    intro d hd
    rw [hblanks d hd]
    decide
  have hnotab : tabInIndentation indent blanks = false := by
    have hdrop : blanks.dropWhile isBlank = [] := by
      rw [List.dropWhile_eq_nil_iff]
      intro d hd
      rw [hblanks d hd]
      rfl
    rw [tabInIndentation, hdrop]
    rfl
  cases blanks with
  | nil => exact absurd rfl hne
  | cons b blanks =>
    have hb : isSpacing b = true := hrun b List.mem_cons_self
    rw [List.cons_append] at hspacing hafter ⊢
    rw [readPlainFrom, dif_pos hb]
    simp only [hspacing, hafter, hnotab, hnobreak, breaksOff_of_not_hasBreak hnobreak, hcomment,
      Bool.false_eq_true, if_false, Bool.and_false, Bool.false_and, decide_false, Bool.or_false]
    split
    · rename_i hnone
      rw [hafter, hword] at hnone
      cases hnone
    · rename_i hsome
      rw [hafter, hword] at hsome
      cases hsome
      exact absurd rfl hwordne
    · rename_i hsome
      rw [hafter, hword] at hsome
      cases hsome
      rw [hp, folded_of_not_hasBreak hnobreak]
      simp

/-- A plain scalar goes on with a word and with what its reader makes of the rest, or, behind blanks,
with the blanks first. -/
theorem readPlainFrom_both {indent : Nat} {endsLine : Bool} (h : GoesPlain text)
    (hstop : StopsPlain indent rest after endsLine) :
    (∃ word next p, readWord false (text ++ rest) = some (word, next) ∧
      readPlainFrom false indent next = some p ∧
        word ++ p.text = text ∧ p.rest = after ∧ p.endsLine = endsLine) ∧
      ∀ blanks, blanks ≠ [] → (∀ d ∈ blanks, d = ' ') → text ≠ [] → text.head? ≠ some '#' →
        readPlainFrom false indent (blanks ++ (text ++ rest)) =
          some ⟨blanks ++ text, after, endsLine⟩ := by
  induction text with
  | nil =>
    exact ⟨⟨[], rest, _, readWord_stop hstop.ends, hstop.stops, rfl, rfl, rfl⟩,
      fun _ _ _ hne => absurd rfl hne⟩
  | cons c text ih =>
    obtain ⟨⟨word, next, p, hword, hp, htext, hafter, hends⟩, ihBlanks⟩ := ih h.tail
    by_cases hblank : c = ' '
    · subst hblank
      have hne : text ≠ [] := by
        rintro rfl
        exact h.noBlankLast rfl
      have hcomment : text.head? ≠ some '#' := by
        have hindicator := h.noIndicator
        simp only [hasIndicator, Bool.or_eq_false_iff] at hindicator
        have hhash := hindicator.1.2
        intro heq
        rw [heq] at hhash
        exact absurd hhash (by decide)
      constructor
      · have hone := ihBlanks [' '] (by simp) (by simp) hne hcomment
        have hstop' : readWord false (' ' :: text ++ rest) = some ([], ' ' :: text ++ rest) :=
          readWord_stop rfl
        exact ⟨[], _, _, hstop', hone, rfl, rfl, rfl⟩
      · intro blanks hblanksne hblanks _ _
        have hmore : ∀ d ∈ blanks ++ [' '], d = ' ' := by
          intro d hd
          rcases List.mem_append.1 hd with hd | hd
          · exact hblanks d hd
          · exact List.mem_singleton.1 hd
        have hrun := ihBlanks (blanks ++ [' ']) (by simp) hmore hne hcomment
        simpa using hrun
    · have hwordCons : readWord false (c :: text ++ rest) = some (c :: word, next) := by
        have hends := endsPlain_false h hblank rest
        rw [List.cons_append] at hends ⊢
        rw [readWord_cons hends, hword]
        rfl
      have hcons : c :: word ++ p.text = c :: text := by rw [List.cons_append, htext]
      refine ⟨⟨c :: word, next, p, hwordCons, hp, hcons, hafter, hends⟩, ?_⟩
      intro blanks hblanksne hblanks _ hcomment
      obtain ⟨hprintable, hbreak⟩ := h.printable c List.mem_cons_self
      have hfirst : ∀ d ∈ (c :: text ++ rest).head?, isSpacing d = false := by
        simpa using not_isSpacing hprintable hblank hbreak
      rw [readPlainFrom_blanks hblanksne hblanks hfirst hcomment hwordCons (List.cons_ne_nil c word)
        hp, List.append_assoc, hcons, hafter, hends]

/-- A plain scalar is read as its text, up to where its reader stops. -/
theorem readPlain_append {indent : Nat} {endsLine : Bool} {first : Char} (h : GoesPlain text)
    (hstop : StopsPlain indent rest after endsLine) :
    readPlain false indent first (text ++ rest) = some ⟨first :: text, after, endsLine⟩ := by
  obtain ⟨⟨word, next, p, hword, hp, htext, hafter, hends⟩, -⟩ := readPlainFrom_both h hstop
  simp only [readPlain, hword, hp, Option.map_some, List.cons_append, htext, hafter, hends]

/-- A colon before spacing ends a plain scalar. -/
theorem stopsPlain_colon (indent : Nat) (h : atSpacing rest = true) :
    StopsPlain indent (':' :: rest) (':' :: rest) false where
  ends := by simp [endsPlain, h]
  stops := by
    rw [readPlainFrom, dif_neg (by decide)]

theorem tabBefore_blanks (indent column : Nat) {blanks : List Char}
    (hblanks : ∀ d ∈ blanks, d = ' ') : tabBefore indent column blanks = false := by
  induction blanks generalizing column with
  | nil => rfl
  | cons b blanks ih =>
    rw [hblanks b List.mem_cons_self]
    simpa [tabBefore, isBreak] using ih (column + 1) fun d hd => hblanks d (List.mem_cons_of_mem b hd)

/-- A line break ends a plain scalar if the next line is not indented enough. -/
theorem stopsPlain_break {indent : Nat} {blanks : List Char} (hblanks : ∀ d ∈ blanks, d = ' ')
    (hindent : blanks.length < indent) (h : ∀ d ∈ rest.head?, isSpacing d = false) :
    StopsPlain indent ('\n' :: (blanks ++ rest)) rest true where
  ends := rfl
  stops := by
    have hrun : ∀ d ∈ '\n' :: blanks, isSpacing d = true := by
      intro d hd
      rcases List.mem_cons.1 hd with rfl | hd
      · rfl
      · rw [hblanks d hd]
        rfl
    have hspacing : spacing ('\n' :: (blanks ++ rest)) = '\n' :: blanks := by
      rw [← List.cons_append]
      exact spacing_append hrun h
    have hafter : afterSpacing ('\n' :: (blanks ++ rest)) = rest := by
      rw [← List.cons_append]
      exact afterSpacing_append hrun h
    have hbreak : hasBreak ('\n' :: blanks) = true := rfl
    have hcolumn : lastColumn ('\n' :: blanks) = blanks.length := by
      have hall : ∀ d ∈ blanks.reverse, isBlank d = true := fun d hd => by
        rw [hblanks d (List.mem_reverse.1 hd)]
        rfl
      rw [lastColumn, List.reverse_cons, List.takeWhile_append_of_pos hall]
      simp [isBlank]
    have hnotab : tabInIndentation indent ('\n' :: blanks) = false :=
      tabBefore_blanks indent 0 hblanks
    rw [readPlainFrom, dif_pos (by decide)]
    simp only [hspacing, hafter, hnotab, hbreak, hcolumn, hindent, Bool.false_eq_true, if_false,
      Bool.not_false, Bool.and_self, decide_true, if_true]

/-! ## What follows a scalar -/

/-- What follows the line of a scalar, and what is left of it behind its blanks: nothing, or a line
that is indented by two blanks. -/
inductive Follows : List Char → List Char → Prop where
  /-- The end of the text. -/
  | nothing : Follows [] []
  /-- One more line. -/
  | line {d : Char} {more : List Char} (hspacing : isSpacing d = false) (hcomment : d ≠ '#') :
    Follows (' ' :: ' ' :: d :: more) (d :: more)

theorem Follows.stopsPlain {tail stop : List Char} (h : Follows tail stop) :
    StopsPlain 3 ('\n' :: tail) stop true := by
  cases h with
  | nothing =>
    have hblanks : ∀ d ∈ ([] : List Char), d = ' ' := by simp
    exact stopsPlain_break hblanks (by decide) (by simp)
  | line hspacing _ =>
    have hblanks : ∀ d ∈ [' ', ' '], d = ' ' := by simp
    exact stopsPlain_break hblanks (by decide) (by simpa using hspacing)

theorem Follows.exists_blanks {tail stop : List Char} (h : Follows tail stop) :
    ∃ blanks, tail = blanks ++ stop ∧ (∀ d ∈ blanks, d = ' ') ∧ (stop = [] ∨ blanks.length = 2) := by
  cases h with
  | nothing => exact ⟨[], rfl, by simp, .inl rfl⟩
  | line _ _ => exact ⟨[' ', ' '], rfl, by simp, .inr rfl⟩

end Eligibility.Yaml
