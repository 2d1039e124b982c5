import Eligibility.Proofs.YamlBlocks

/-!
# The forms of YAML scalars

In which form a text is written, together with what the readers of scalars ask of it there
(`written`). What is written is printable; a text on one line is written on one line that is not
longer than four times its bytes.
-/

namespace Eligibility.Yaml

variable {text : String} {chars form ending : List Char} {plain : Bool} {c : Char}

/-! ## The form of a text -/

/-- A character with which a plain scalar may start, before the given text. -/
structure StartsPlain (first : Char) (more : List Char) : Prop where
  printable : isPrintable first = true
  noSpacing : isSpacing first = false
  noIndicator : isIndicator first = false
  noMark : first = '-' ∨ first = '?' ∨ first = ':' → atSpacing more = false

/-- A text in one of the forms, what ends its line, and whether it is plain. -/
inductive Written (text : String) : List Char → List Char → Bool → Prop where
  /-- Without marks. -/
  | plain {first : Char} {more : List Char} (htext : text.toList = first :: more)
      (hfirst : StartsPlain first more) (hmore : GoesPlain more) :
    Written text (first :: more) ['\n'] true
  /-- Between single quotes. -/
  | single (h : Tidy text.toList) :
    Written text ('\'' :: (singleText false text.toList ++ ['\''])) ['\n'] false
  /-- Between double quotes. -/
  | double : Written text ('"' :: (text.toList.flatMap escapedChar ++ ['"'])) ['\n'] false
  /-- As a literal block. -/
  | literal (hprintable : ∀ c ∈ text.toList, isPrintable c = true) (hfeed : '\n' ∈ text.toList) :
    Written text ('|' :: (literalHints text.toList ++ '\n' :: literalText true text.toList))
      (lastFeed text.toList) false

theorem written_plain (hnull : text ≠ "") (h : admitsPlain text.toList = true) :
    Written text text.toList ['\n'] true := by
  simp only [admitsPlain, Bool.and_eq_true, bne_iff_ne, Bool.not_eq_true', List.all_eq_true,
    List.any_eq_false] at h
  obtain ⟨⟨⟨⟨⟨⟨hprintable, hbreak⟩, hblank⟩, hlast⟩, hindicator⟩, hinside⟩, -⟩ := h
  cases htext : text.toList with
  | nil => exact absurd (String.toList_eq_nil_iff.1 htext) hnull
  | cons first more =>
    rw [htext] at hprintable hbreak hblank hlast hindicator hinside
    have hchars : ∀ c ∈ first :: more, isPrintable c = true ∧ isBreak c = false :=
      fun c hc => ⟨hprintable c hc, by simpa using hbreak c hc⟩
    have hgoes : GoesPlain (first :: more) := ⟨hchars, hinside, hlast⟩
    obtain ⟨hfirst, hfirstBreak⟩ := hchars first List.mem_cons_self
    simp only [startsWithIndicator, Bool.or_eq_false_iff, Bool.and_eq_false_imp,
      Bool.or_eq_true, beq_iff_eq] at hindicator
    simp only [hasIndicator, Bool.or_eq_false_iff, Bool.and_eq_false_imp, beq_iff_eq] at hinside
    have hspacing := not_isSpacing hfirst (by simpa using hblank) hfirstBreak
    refine .plain htext ⟨hfirst, hspacing, hindicator.1, ?_⟩ hgoes.tail
    rintro (hmark | hmark | hmark)
    · exact hindicator.2 (.inr hmark)
    · exact hindicator.2 (.inl hmark)
    · exact hinside.1.1 hmark

theorem tidy_of_admitsSingle (hfeed : '\n' ∉ chars) (h : admitsSingle chars = true) :
    Tidy chars := by
  simp only [admitsSingle, Bool.and_eq_true, Bool.not_eq_true', List.all_eq_true] at h
  obtain ⟨⟨hprintable, hbefore⟩, hafter⟩ := h
  exact ⟨hprintable, hfeed, hbefore, hafter⟩

theorem lineEnd_of_ne (h : Style.of text ≠ .literal) : lineEnd text = ['\n'] := by
  simp [lineEnd, h]

theorem lineEnd_literal (h : Style.of text = .literal) (hne : text.toList ≠ []) :
    lineEnd text = lastFeed text.toList := by
  simp [lineEnd, lastFeed, h, List.getLast?_eq_some_getLast hne]

/-- Whether a text is written without marks. -/
def isPlain (text : String) : Bool := Style.of text == .plain

/-- Every text is written in a form that its readers accept. -/
theorem written (text : String) :
    Written text (scalarText text) (lineEnd text) (isPlain text) := by
  have hstyle : Style.of text = if text.toList.contains '\n' then
      (if admitsLiteral text.toList then .literal else .double)
    else if !looksTyped text && admitsPlain text.toList then .plain
    else if admitsSingle text.toList then .single
    else .double := rfl
  by_cases hfeed : '\n' ∈ text.toList
  · have hcontains : text.toList.contains '\n' = true := by simpa using hfeed
    rw [if_pos hcontains] at hstyle
    by_cases hliteral : admitsLiteral text.toList = true
    · rw [if_pos hliteral] at hstyle
      simp only [admitsLiteral, Bool.and_eq_true, List.all_eq_true] at hliteral
      rw [scalarText, lineEnd_literal hstyle (List.ne_nil_of_mem hfeed), isPlain, hstyle]
      exact .literal hliteral.1.1 hfeed
    · rw [if_neg hliteral] at hstyle
      rw [scalarText, lineEnd_of_ne (by simp [hstyle]), isPlain, hstyle]
      exact .double
  · have hcontains : ¬ text.toList.contains '\n' = true := by simpa using hfeed
    rw [if_neg hcontains] at hstyle
    by_cases hplain : (!looksTyped text && admitsPlain text.toList) = true
    · rw [if_pos hplain] at hstyle
      rw [scalarText, lineEnd_of_ne (by simp [hstyle]), isPlain, hstyle]
      rw [Bool.and_eq_true, Bool.not_eq_true'] at hplain
      have hnull : text ≠ "" := by
        rintro rfl
        exact absurd hplain.1 (by decide)
      exact written_plain hnull hplain.2
    · rw [if_neg hplain] at hstyle
      by_cases hsingle : admitsSingle text.toList = true
      · rw [if_pos hsingle] at hstyle
        rw [scalarText, lineEnd_of_ne (by simp [hstyle]), isPlain, hstyle]
        exact .single (tidy_of_admitsSingle hfeed hsingle)
      · rw [if_neg hsingle] at hstyle
        rw [scalarText, lineEnd_of_ne (by simp [hstyle]), isPlain, hstyle]
        exact .double

theorem Written.exists_first (h : Written text form ending plain) :
    ∃ first more, form = first :: more ∧ isSpacing first = false ∧ first ≠ '#' := by
  cases h with
  | plain _ hfirst _ =>
    refine ⟨_, _, rfl, hfirst.noSpacing, ?_⟩
    rintro rfl
    exact absurd hfirst.noIndicator (by decide)
  | single _ => exact ⟨'\'', _, rfl, by decide, by decide⟩
  | double => exact ⟨'"', _, rfl, by decide, by decide⟩
  | literal _ _ => exact ⟨'|', _, rfl, by decide, by decide⟩

/-! ## The characters of a form -/

theorem mem_singleText {afterBreak : Bool} (h : c ∈ singleText afterBreak chars) :
    c = ' ' ∨ c = '\'' ∨ c ∈ chars := by
  induction chars generalizing afterBreak with
  | nil => grind [singleText, mem_indentation]
  | cons d chars ih => grind [singleText, mem_indentation]

theorem mem_literalText {atStart : Bool} (h : c ∈ literalText atStart chars) :
    c = ' ' ∨ c ∈ chars := by
  induction chars generalizing atStart with
  | nil => cases h
  | cons d chars ih => grind [literalText, mem_indentation]

theorem mem_literalHints (h : c ∈ literalHints chars) : c = '2' ∨ c = '-' ∨ c = '+' := by
  grind [literalHints]

theorem mem_lastFeed (h : c ∈ lastFeed chars) : c = '\n' := by
  grind [lastFeed]

theorem standsOnLine_escapedChar {d : Char} (h : d ∈ escapedChar c) : StandsOnLine d := by
  have hbackslash : StandsOnLine '\\' := by decide
  rcases escapedChar_cases c with ⟨hself, hprintable, hbreak, -⟩ | ⟨code, hcode, hescapes⟩
  · rw [hself, List.mem_singleton] at h
    rw [h]
    exact ⟨hprintable, hbreak⟩
  · rw [hcode] at h
    rcases List.mem_cons.1 h with rfl | h
    · exact hbackslash
    · exact hescapes.onLine d h

theorem length_escapedChar_le (c : Char) : (escapedChar c).length ≤ 4 * c.utf8Size := by
  have hsize := c.utf8Size_pos
  rcases escapedChar_cases c with ⟨hself, -⟩ | ⟨code, hcode, hescapes⟩
  · rw [hself, List.length_singleton]
    omega
  · have hcodeLength := hescapes.length_lt
    rw [hcode, List.length_cons]
    omega

theorem length_le_byteLength (chars : List Char) : chars.length ≤ byteLength chars := by
  induction chars with
  | nil => exact Nat.le_refl 0
  | cons c chars ih =>
    have hsize := c.utf8Size_pos
    rw [List.length_cons, byteLength_cons]
    omega

theorem length_flatMap_escapedChar_le (chars : List Char) :
    (chars.flatMap escapedChar).length ≤ 4 * byteLength chars := by
  induction chars with
  | nil => exact Nat.le_refl 0
  | cons c chars ih =>
    have hc := length_escapedChar_le c
    rw [List.flatMap_cons, List.length_append, byteLength_cons]
    omega

theorem length_singleText_le (h : ∀ c ∈ chars, isBreak c = false) :
    (singleText false chars).length ≤ 2 * chars.length := by
  induction chars with
  | nil => exact Nat.le_refl 0
  | cons c chars ih =>
    have hmore := ih fun d hd => h d (List.mem_cons_of_mem c hd)
    by_cases hquote : c = '\''
    · rw [hquote, singleText_quote, List.length_cons, List.length_cons, List.length_cons]
      omega
    · rw [singleText_other (h c List.mem_cons_self) hquote, List.length_cons, List.length_cons]
      omega

theorem Written.printable (h : Written text form ending plain) :
    ∀ c ∈ form ++ ending, isPrintable c = true := by
  have hmarks : ∀ c ∈ ['\n', ' ', '\'', '"', '|', '2', '-', '+'], isPrintable c = true :=
    List.all_eq_true.1 (by decide)
  simp only [List.mem_cons, List.not_mem_nil, or_false, forall_eq_or_imp, forall_eq] at hmarks
  intro c hc
  rw [List.mem_append] at hc
  rcases hc with hc | hc
  · cases h with
    | plain _ hfirst hmore =>
      rcases List.mem_cons.1 hc with rfl | hc
      · exact hfirst.printable
      · exact (hmore.printable c hc).1
    | single htidy =>
      have := htidy.printable c
      grind [mem_singleText]
    | double =>
      have hescaped : c ∈ text.toList.flatMap escapedChar → isPrintable c = true := by
        intro hc
        obtain ⟨d, -, hd⟩ := List.mem_flatMap.1 hc
        exact (standsOnLine_escapedChar hd).1
      grind
    | literal hprintable _ =>
      have := hprintable c
      grind [mem_literalText, mem_literalHints]
  · cases h with
    | literal _ _ =>
      rw [mem_lastFeed hc]
      rfl
    | _ =>
      rw [List.mem_singleton.1 hc]
      rfl

/-- A text on one line is written on one line. -/
theorem Written.onLine (h : Written text form ending plain)
    (hline : ∀ c ∈ text.toList, isBreak c = false) :
    ending = ['\n'] ∧ (∀ c ∈ form, isBreak c = false) ∧
      form.length ≤ 4 * byteLength text.toList + 2 := by
  have hbytes := length_le_byteLength text.toList
  cases h with
  | plain htext _ _ =>
    rw [htext] at hline hbytes ⊢
    exact ⟨rfl, hline, by omega⟩
  | single _ =>
    refine ⟨rfl, ?_, ?_⟩
    · have hmarks : isBreak '\'' = false ∧ isBreak ' ' = false := by decide
      intro c hc
      have := hline c
      grind [mem_singleText]
    · have hlength := length_singleText_le hline
      rw [List.length_cons, List.length_append, List.length_singleton]
      omega
  | double =>
    refine ⟨rfl, ?_, ?_⟩
    · have hmarks : isBreak '"' = false := by decide
      intro c hc
      have hescaped : c ∈ text.toList.flatMap escapedChar → isBreak c = false := by
        intro hc
        obtain ⟨d, -, hd⟩ := List.mem_flatMap.1 hc
        exact (standsOnLine_escapedChar hd).2
      grind
    · have hlength := length_flatMap_escapedChar_le text.toList
      rw [List.length_cons, List.length_append, List.length_singleton]
      omega
  | literal _ hfeed => cases hline '\n' hfeed

end Eligibility.Yaml
