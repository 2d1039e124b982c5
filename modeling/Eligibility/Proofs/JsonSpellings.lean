import Eligibility.Proofs.Escaping
import Eligibility.Proofs.Stretches

/-!
# The spellings of JSON tokens

A token of a JSON text may be spelled in many ways: every character of a string may be escaped, and
a number may have a sign, a fraction and an exponent. `SpellsToken` states these ways. The token
that is read at the start of a text is one that the text spells there (`spells_of_readToken`), and a
spelling is read as its token if no number goes on behind it (`readToken_append`).
-/

namespace Eligibility.Json

/-! ## The grammar of tokens -/

/-- Decimal digits, at least one. -/
structure IsDigits (text : List Char) : Prop where
  /-- There is a digit. -/
  ne_nil : text ≠ []
  /-- There is nothing else. -/
  digits : ∀ c ∈ text, isDigit c = true

/-- The integer part of a number. -/
structure IsWhole (text : List Char) : Prop extends IsDigits text where
  /-- There is no superfluous zero. -/
  zero : ∀ c more, text ≠ '0' :: c :: more

/-- The spellings of the fraction of a number, by its digits. -/
inductive SpellsFraction : List Char → List Char → Prop where
  /-- There is none. -/
  | none : SpellsFraction [] []
  /-- A point and digits. -/
  | point {digits : List Char} (h : IsDigits digits) : SpellsFraction digits ('.' :: digits)

/-- The spellings of the exponent of a number, by its sign and its digits. -/
inductive SpellsExponent : Bool → List Char → List Char → Prop where
  /-- There is none. -/
  | none : SpellsExponent false [] []
  /-- Digits without a sign. -/
  | unsigned {e : Char} {digits : List Char} (he : e = 'e' ∨ e = 'E') (h : IsDigits digits) :
      SpellsExponent false digits (e :: digits)
  /-- Digits after a plus. -/
  | plus {e : Char} {digits : List Char} (he : e = 'e' ∨ e = 'E') (h : IsDigits digits) :
      SpellsExponent false digits (e :: '+' :: digits)
  /-- Digits after a minus. -/
  | minus {e : Char} {digits : List Char} (he : e = 'e' ∨ e = 'E') (h : IsDigits digits) :
      SpellsExponent true digits (e :: '-' :: digits)

/-- The spellings of a number. -/
inductive SpellsNumber : NumberText → List Char → Prop where
  /-- A sign, an integer part, a fraction and an exponent. -/
  | parts {negative negativeExponent : Bool}
      {whole fraction exponent fractionText exponentText : List Char} (hwhole : IsWhole whole)
      (hfraction : SpellsFraction fraction fractionText)
      (hexponent : SpellsExponent negativeExponent exponent exponentText) :
      SpellsNumber ⟨negative, whole, fraction, negativeExponent, exponent⟩
        ((if negative then ['-'] else []) ++ (whole ++ (fractionText ++ exponentText)))

/-- The spellings of the inside of a string, by the code points that it denotes. -/
inductive SpellsUnits : List Nat → List Char → Prop where
  /-- Nothing. -/
  | nil : SpellsUnits [] []
  /-- A character that stands for itself. -/
  | plain {c : Char} {units : List Nat} {text : List Char} (hquote : c ≠ '"')
      (hbackslash : c ≠ '\\') (hcontrol : ¬ c.toNat < 32) (h : SpellsUnits units text) :
      SpellsUnits (c.toNat :: units) (c :: text)
  /-- A character after a backslash. -/
  | escape {e c : Char} {units : List Nat} {text : List Char} (he : simpleEscape? e = some c)
      (h : SpellsUnits units text) : SpellsUnits (c.toNat :: units) ('\\' :: e :: text)
  /-- Four hexadecimal digits. -/
  | digits {a b c d : Char} {n : Nat} {units : List Nat} {text : List Char}
      (hn : hexFour? a b c d = some n) (h : SpellsUnits units text) :
      SpellsUnits (n :: units) ('\\' :: 'u' :: a :: b :: c :: d :: text)

/-- The spellings of a token. -/
inductive SpellsToken : Token → List Char → Prop where
  /-- A character that is a token. -/
  | mark {c : Char} {token : Token} (h : punctuation? c = some token) : SpellsToken token [c]
  /-- A string between quotes. -/
  | string {units : List Nat} {text : List Char} (h : SpellsUnits units text) :
      SpellsToken (.string ((textOfUnits units).map String.ofList)) ('"' :: (text ++ ['"']))
  /-- The null value. -/
  | literalNull : SpellsToken (.scalar .null) ['n', 'u', 'l', 'l']
  /-- The truth value true. -/
  | literalTrue : SpellsToken (.scalar (.bool true)) ['t', 'r', 'u', 'e']
  /-- The truth value false. -/
  | literalFalse : SpellsToken (.scalar (.bool false)) ['f', 'a', 'l', 's', 'e']
  /-- A number. -/
  | number {n : NumberText} {text : List Char} (h : SpellsNumber n text) :
      SpellsToken (.scalar (.number n)) text

/-! ## Numbers -/

/-- A text that does not go on with a number that stands before it. -/
def EndsNumber (text : List Char) : Prop :=
  ∀ c ∈ text.head?, isDigit c = false ∧ c ≠ '.' ∧ c ≠ 'e' ∧ c ≠ 'E'

section Numbers

variable {text rest digits : List Char}

theorem isDigits_takeWhile (h : text.takeWhile isDigit ≠ []) : IsDigits (text.takeWhile isDigit) :=
  ⟨h, (takeWhile_dropWhile isDigit text).1⟩

theorem readWhole_append (h : IsWhole digits) (hrest : ∀ c ∈ rest.head?, isDigit c = false) :
    readWhole (digits ++ rest) = some (digits, rest) := by
  unfold readWhole
  rw [takeWhile_stretch h.digits hrest, dropWhile_stretch h.digits hrest]
  split
  · exact absurd rfl h.ne_nil
  · exact absurd rfl (h.zero _ _)
  · rfl

theorem isWhole_of_readWhole (h : readWhole text = some (digits, rest)) :
    text = digits ++ rest ∧ IsWhole digits := by
  have hsplit := List.takeWhile_append_dropWhile (p := isDigit) (l := text)
  unfold readWhole at h
  split at h
  · cases h
  · cases h
  · rename_i hnil hzero
    cases h
    exact ⟨hsplit.symm, isDigits_takeWhile hnil, hzero⟩

theorem readFraction_append (h : SpellsFraction digits text)
    (hrest : ∀ c ∈ rest.head?, isDigit c = false ∧ c ≠ '.') :
    readFraction (text ++ rest) = some (digits, rest) := by
  cases h with
  | none =>
    cases rest with
    | nil => rfl
    | cons c rest =>
      have hpoint := (hrest c rfl).2
      unfold readFraction
      split
      · rename_i heq
        cases heq
        contradiction
      · rfl
  | point h =>
    have hdigit : ∀ c ∈ rest.head?, isDigit c = false := fun c hc => (hrest c hc).1
    simp [readFraction, takeWhile_stretch h.digits hdigit, dropWhile_stretch h.digits hdigit,
      h.ne_nil]

theorem spellsFraction_of_readFraction (h : readFraction text = some (digits, rest)) :
    ∃ spelling, text = spelling ++ rest ∧ SpellsFraction digits spelling := by
  unfold readFraction at h
  split at h
  · rename_i after
    split at h
    · cases h
    · rename_i hdigits
      cases h
      refine ⟨_, ?_, .point (isDigits_takeWhile (by simpa using hdigits))⟩
      rw [List.cons_append, List.takeWhile_append_dropWhile]
  · cases h
    exact ⟨[], rfl, .none⟩

theorem readExponentDigits_append {negative : Bool} (h : IsDigits digits)
    (hrest : ∀ c ∈ rest.head?, isDigit c = false) :
    readExponentDigits negative (digits ++ rest) = some (negative, digits, rest) := by
  simp [readExponentDigits, takeWhile_stretch h.digits hrest, dropWhile_stretch h.digits hrest,
    h.ne_nil]

theorem isDigits_of_readExponentDigits {negative sign : Bool}
    (h : readExponentDigits negative text = some (sign, digits, rest)) :
    sign = negative ∧ text = digits ++ rest ∧ IsDigits digits := by
  unfold readExponentDigits at h
  split at h
  · cases h
  · rename_i hdigits
    cases h
    exact ⟨rfl, List.takeWhile_append_dropWhile.symm, isDigits_takeWhile (by simpa using hdigits)⟩

theorem readExponent_append {negative : Bool} (h : SpellsExponent negative digits text)
    (hrest : EndsNumber rest) : readExponent (text ++ rest) = some (negative, digits, rest) := by
  have hdigit : ∀ c ∈ rest.head?, isDigit c = false := fun c hc => (hrest c hc).1
  have hletter {e : Char} (he : e = 'e' ∨ e = 'E') : (e = 'e' || e = 'E') = true := by
    simpa using he
  cases h with
  | none =>
    cases rest with
    | nil => rfl
    | cons c rest =>
      obtain ⟨-, -, hlower, hupper⟩ := hrest c rfl
      simp [readExponent, hlower, hupper]
  | unsigned he h =>
    -- a digit is no sign
    cases digits with
    | nil => exact absurd rfl h.ne_nil
    | cons d digits =>
      have hd := h.digits d List.mem_cons_self
      have hread : readExponentDigits false (d :: (digits ++ rest)) =
          some (false, d :: digits, rest) := readExponentDigits_append h hdigit
      simp only [List.cons_append, readExponent, hletter he, if_true]
      split
      · rename_i heq
        cases heq
        cases hd
      · rename_i heq
        cases heq
        cases hd
      · exact hread
  | plus he h => simp [readExponent, hletter he, readExponentDigits_append h hdigit]
  | minus he h => simp [readExponent, hletter he, readExponentDigits_append h hdigit]

theorem spellsExponent_of_readExponent {negative : Bool}
    (h : readExponent text = some (negative, digits, rest)) :
    ∃ spelling, text = spelling ++ rest ∧ SpellsExponent negative digits spelling := by
  unfold readExponent at h
  split at h
  · cases h
    exact ⟨[], rfl, .none⟩
  · rename_i e after
    split at h
    · rename_i hletter
      have he : e = 'e' ∨ e = 'E' := by simpa using hletter
      split at h
      · obtain ⟨rfl, rfl, hdigits⟩ := isDigits_of_readExponentDigits h
        exact ⟨_, rfl, .plus he hdigits⟩
      · obtain ⟨rfl, rfl, hdigits⟩ := isDigits_of_readExponentDigits h
        exact ⟨_, rfl, .minus he hdigits⟩
      · obtain ⟨rfl, rfl, hdigits⟩ := isDigits_of_readExponentDigits h
        exact ⟨_, rfl, .unsigned he hdigits⟩
    · cases h
      exact ⟨[], rfl, .none⟩

/-- Behind the integer part there is no digit, whichever of the other parts there are. -/
theorem not_isDigit_behind_whole {negative : Bool} {exponent fractionText exponentText : List Char}
    (hfraction : SpellsFraction digits fractionText)
    (hexponent : SpellsExponent negative exponent exponentText) (hrest : EndsNumber rest) :
    (∀ c ∈ (fractionText ++ (exponentText ++ rest)).head?, isDigit c = false) ∧
      ∀ c ∈ (exponentText ++ rest).head?, isDigit c = false ∧ c ≠ '.' := by
  have hletter {e : Char} (he : e = 'e' ∨ e = 'E') : isDigit e = false ∧ e ≠ '.' := by
    rcases he with rfl | rfl <;> decide
  have hbehind : ∀ c ∈ (exponentText ++ rest).head?, isDigit c = false ∧ c ≠ '.' := by
    cases hexponent with
    | none => exact fun c hc => ⟨(hrest c hc).1, (hrest c hc).2.1⟩
    | unsigned he _ => simpa using hletter he
    | plus he _ => simpa using hletter he
    | minus he _ => simpa using hletter he
  refine ⟨?_, hbehind⟩
  cases hfraction with
  | none => exact fun c hc => (hbehind c hc).1
  | point _ => simp [isDigit]

theorem readNumber_append {n : NumberText} (h : SpellsNumber n text) (hrest : EndsNumber rest) :
    readNumber (text ++ rest) = some (n, rest) := by
  obtain ⟨hwhole, hfraction, hexponent⟩ := h
  rename_i negative negativeExponent whole fraction exponent fractionText exponentText
  obtain ⟨hdigit, hpoint⟩ := not_isDigit_behind_whole hfraction hexponent hrest
  have hunsigned : readUnsigned negative (whole ++ (fractionText ++ (exponentText ++ rest))) =
      some (⟨negative, whole, fraction, negativeExponent, exponent⟩, rest) := by
    simp [readUnsigned, readWhole_append hwhole hdigit, readFraction_append hfraction hpoint,
      readExponent_append hexponent hrest]
  cases negative with
  | true => simpa [readNumber] using hunsigned
  | false =>
    simp only [Bool.false_eq_true, if_false, List.nil_append, List.append_assoc]
    unfold readNumber
    split
    · -- the integer part does not begin with a minus
      rename_i heq
      cases whole with
      | nil => exact absurd rfl hwhole.ne_nil
      | cons c whole =>
        cases heq
        cases hwhole.digits _ List.mem_cons_self
    · exact hunsigned

theorem spellsNumber_of_readNumber {n : NumberText} (h : readNumber text = some (n, rest)) :
    ∃ spelling, text = spelling ++ rest ∧ SpellsNumber n spelling := by
  have hunsigned {negative : Bool} {text : List Char}
      (h : readUnsigned negative text = some (n, rest)) :
      ∃ spelling, (if negative then ['-'] else []) ++ text = spelling ++ rest ∧
        SpellsNumber n spelling := by
    unfold readUnsigned at h
    obtain ⟨⟨whole, afterWhole⟩, hreadWhole, h⟩ := Option.bind_eq_some_iff.1 h
    obtain ⟨⟨fraction, afterFraction⟩, hreadFraction, h⟩ := Option.bind_eq_some_iff.1 h
    obtain ⟨⟨negativeExponent, exponent, after⟩, hreadExponent, h⟩ := Option.bind_eq_some_iff.1 h
    cases h
    obtain ⟨rfl, hwhole⟩ := isWhole_of_readWhole hreadWhole
    obtain ⟨fractionText, hfractionText, hfraction⟩ := spellsFraction_of_readFraction hreadFraction
    obtain ⟨exponentText, hexponentText, hexponent⟩ := spellsExponent_of_readExponent hreadExponent
    refine ⟨(if negative then ['-'] else []) ++ (whole ++ (fractionText ++ exponentText)), ?_,
      .parts hwhole hfraction hexponent⟩
    rw [hfractionText, hexponentText, List.append_assoc, List.append_assoc, List.append_assoc]
  unfold readNumber at h
  split at h
  · exact hunsigned h
  · exact hunsigned h

end Numbers

/-! ## Strings -/

theorem codeUnits_append {units : List Nat} {text : List Char} (h : SpellsUnits units text)
    (rest : List Char) : codeUnits (text ++ '"' :: rest) = some (units, rest) := by
  induction h with
  | nil => simp [codeUnits]
  | plain hquote hbackslash hcontrol _ ih => exact codeUnits_plain hquote hbackslash hcontrol ih
  | @escape e c units text he _ ih =>
    have hnot : e ≠ 'u' := by
      rintro rfl
      cases he
    rw [List.cons_append, List.cons_append, codeUnits.eq_def]
    split
    · simp_all
    · simp_all
    · simp_all
    · simp_all
    · rename_i hother heq
      cases heq
      exact absurd rfl (hother _ _ rfl)
  | digits hn _ ih => exact codeUnits_hex hn ih

theorem spellsUnits_of_codeUnits {units : List Nat} {text rest : List Char}
    (h : codeUnits text = some (units, rest)) :
    ∃ inside, text = inside ++ '"' :: rest ∧ SpellsUnits units inside := by
  fun_induction codeUnits text generalizing units rest with
  | case1 => cases h
  | case2 =>
    cases h
    exact ⟨[], rfl, .nil⟩
  | case3 =>
    rename_i hunits hn ih
    cases h
    obtain ⟨inside, rfl, hinside⟩ := ih hunits
    exact ⟨_, rfl, .digits hn hinside⟩
  | case4 => cases h
  | case5 =>
    rename_i hunits he ih
    cases h
    obtain ⟨inside, rfl, hinside⟩ := ih hunits
    exact ⟨_, rfl, .escape he hinside⟩
  | case6 => cases h
  | case7 => cases h
  | case8 c after hquote _ hescape hcontrol ih =>
    obtain ⟨⟨units, rest⟩, hunits, heq⟩ := Option.map_eq_some_iff.1 h
    cases heq
    obtain ⟨inside, rfl, hinside⟩ := ih hunits
    refine ⟨_, rfl, .plain hquote ?_ hcontrol hinside⟩
    -- something follows, if only the quote, so a backslash would have been an escape
    intro hbackslash
    cases inside with
    | nil => exact hescape _ _ hbackslash rfl
    | cons e inside => exact hescape _ _ hbackslash rfl

/-! ## Tokens -/

/-- Whether a token is a value that is neither a string nor composed. -/
def Token.isScalar : Token → Bool
  | .scalar _ => true
  | _ => false

section Tokens

variable {token : Token} {text rest : List Char}

theorem of_numberStart {c : Char} (h : c = '-' ∨ isDigit c = true) :
    isBlank c = false ∧ punctuation? c = none ∧ c ≠ '"' ∧ c ≠ 'n' ∧ c ≠ 't' ∧ c ≠ 'f' := by
  have hne (d : Char) (hd : (d == '-' || isDigit d) = false) : c ≠ d := by
    rintro rfl
    simp_all
  simp [isBlank, punctuation?, hne ' ' rfl, hne '\t' rfl, hne '\n' rfl, hne '\r' rfl,
    hne '\x7b' rfl, hne '\x7d' rfl, hne '[' rfl, hne ']' rfl, hne ',' rfl, hne ':' rfl,
    hne '"' rfl, hne 'n' rfl, hne 't' rfl, hne 'f' rfl]

theorem SpellsNumber.start {n : NumberText} (h : SpellsNumber n text) :
    ∃ c more, text = c :: more ∧ (c = '-' ∨ isDigit c = true) := by
  obtain ⟨hwhole, -, -⟩ := h
  rename_i negative _ whole _ _ _ _
  cases negative with
  | true => exact ⟨_, _, rfl, .inl rfl⟩
  | false =>
    cases whole with
    | nil => exact absurd rfl hwhole.ne_nil
    | cons c whole => exact ⟨_, _, rfl, .inr (hwhole.digits c List.mem_cons_self)⟩

theorem mem_of_punctuation? {c : Char} (h : punctuation? c = some token) :
    c ∈ ['\x7b', '\x7d', '[', ']', ',', ':'] := by
  by_cases hc : c ∈ ['\x7b', '\x7d', '[', ']', ',', ':']
  · exact hc
  · simp only [List.mem_cons, List.not_mem_nil, or_false, not_or] at hc
    simp [punctuation?, hc] at h

/-- A token begins with a character that is no blank, and unless the token is a scalar this
character ends a number that stands before it. -/
theorem SpellsToken.start (h : SpellsToken token text) :
    ∃ c more, text = c :: more ∧ isBlank c = false ∧
      (token.isScalar = false → isDigit c = false ∧ c ≠ '.' ∧ c ≠ 'e' ∧ c ≠ 'E') := by
  cases h with
  | mark h =>
    have hmark := mem_of_punctuation? h
    simp only [List.mem_cons, List.not_mem_nil, or_false] at hmark
    rcases hmark with rfl | rfl | rfl | rfl | rfl | rfl <;>
      exact ⟨_, [], rfl, rfl, fun _ => by decide⟩
  | string _ => exact ⟨'"', _, rfl, rfl, fun _ => by decide⟩
  | literalNull => exact ⟨'n', _, rfl, rfl, nofun⟩
  | literalTrue => exact ⟨'t', _, rfl, rfl, nofun⟩
  | literalFalse => exact ⟨'f', _, rfl, rfl, nofun⟩
  | number h =>
    obtain ⟨c, more, rfl, hc⟩ := h.start
    exact ⟨c, more, rfl, (of_numberStart hc).1, nofun⟩

/-- A spelled token is read, if what follows does not make it longer. -/
theorem readToken_append (h : SpellsToken token text)
    (hrest : token.isScalar = true → EndsNumber rest) :
    readToken (text ++ rest) = some (token, rest) := by
  cases h with
  | mark h => simp [readToken, h]
  | string h => simp [readToken, punctuation?, readString, codeUnits_append h]
  | literalNull => rfl
  | literalTrue => rfl
  | literalFalse => rfl
  | @number n _ h =>
    have hread := readNumber_append h (hrest rfl)
    obtain ⟨c, more, rfl, hc⟩ := h.start
    obtain ⟨-, hpunctuation, hquote, hnull, htrue, hfalse⟩ := of_numberStart hc
    have hscalar : readScalar (c :: more ++ rest) = some (.number n, rest) := by
      rw [readScalar.eq_def]
      split
      · simp_all
      · simp_all
      · simp_all
      · rw [hread, Option.map_some]
    rw [List.cons_append] at hscalar ⊢
    simp [readToken, hpunctuation, hquote, hscalar]

/-- A token is read where it is spelled. -/
theorem spells_of_readToken (h : readToken text = some (token, rest)) :
    ∃ spelling, text = spelling ++ rest ∧ SpellsToken token spelling := by
  unfold readToken at h
  split at h
  · cases h
  rename_i c after
  split at h
  · rename_i hmark
    cases h
    exact ⟨[c], rfl, .mark hmark⟩
  split at h
  · rename_i hquote
    obtain ⟨⟨units, behind⟩, hunits, heq⟩ := Option.map_eq_some_iff.1 h
    cases heq
    obtain ⟨inside, rfl, hinside⟩ := spellsUnits_of_codeUnits hunits
    exact ⟨'"' :: (inside ++ ['"']), by simp [hquote], .string hinside⟩
  · obtain ⟨⟨value, behind⟩, hvalue, heq⟩ := Option.map_eq_some_iff.1 h
    cases heq
    unfold readScalar at hvalue
    split at hvalue
    · rename_i heq
      cases hvalue
      exact ⟨_, heq, .literalNull⟩
    · rename_i heq
      cases hvalue
      exact ⟨_, heq, .literalTrue⟩
    · rename_i heq
      cases hvalue
      exact ⟨_, heq, .literalFalse⟩
    · obtain ⟨⟨n, behind⟩, hn, heq⟩ := Option.map_eq_some_iff.1 hvalue
      cases heq
      obtain ⟨spelling, hspelling, hnumber⟩ := spellsNumber_of_readNumber hn
      exact ⟨spelling, hspelling, .number hnumber⟩

end Tokens

end Eligibility.Json
