import Eligibility.Json.Parser

/-!
# Escaped strings

A character that is written by its number is read from the digits again, in every format that has
such escapes. A string that is written as JSON is read back as the same text, whatever characters it
is made of: each character is escaped by itself, the reader undoes one escape at a time, and the
code points of a text are never halves of a surrogate pair.
-/

namespace Eligibility

theorem mem_of_lookup {α β : Type} [BEq α] [LawfulBEq α] {l : List (α × β)} {a : α} {b : β}
    (h : l.lookup a = some b) : (a, b) ∈ l := by
  obtain ⟨l₁, l₂, rfl, -⟩ := List.lookup_eq_some_iff.1 h
  exact List.mem_append_right l₁ List.mem_cons_self

/-! ## Digits -/

theorem Hexadecimal.value?_lowerDigit {n : Nat} (h : n < 16) : value? (lowerDigit n) = some n := by
  revert n
  decide

theorem Hexadecimal.value?_upperDigit {n : Nat} (h : n < 16) : value? (upperDigit n) = some n := by
  revert n
  decide

namespace Hexadecimal

theorem readFrom_succ {d : Char} {m k v width : Nat} {text rest : List Char}
    (h : readFrom m width text = some (k, d :: rest)) (hd : value? d = some v) :
    readFrom m (width + 1) text = some (k * 16 + v, rest) := by
  induction width generalizing m text with
  | zero =>
    cases h
    simp [readFrom, hd]
  | succ width ih =>
    cases text with
    | nil => cases h
    | cons c text =>
      rw [readFrom] at h ⊢
      cases hc : value? c with
      | none => simp [hc] at h
      | some u =>
        simp only [hc] at h ⊢
        exact ih h

/-- A number is read from its digits, if they are enough. -/
theorem readFrom_digits {n width : Nat} (h : n < Nat.pow 16 width) (rest : List Char) :
    readFrom 0 width (digits upperDigit width n ++ rest) = some (n, rest) := by
  induction width generalizing n rest with
  | zero =>
    obtain rfl : n = 0 := by simpa using h
    rfl
  | succ width ih =>
    have hhigh : n / 16 < Nat.pow 16 width := by
      have hpower : Nat.pow 16 (width + 1) = Nat.pow 16 width * 16 := rfl
      rw [hpower] at h
      exact Nat.div_lt_of_lt_mul (by rwa [Nat.mul_comm] at h)
    have hsplit : digits upperDigit (width + 1) n ++ rest =
        digits upperDigit width (n / 16) ++ upperDigit (n % 16) :: rest := by
      simp [digits]
    have hlow : value? (upperDigit (n % 16)) = some (n % 16) :=
      value?_upperDigit (Nat.mod_lt n (by decide))
    rw [hsplit, readFrom_succ (ih hhigh _) hlow]
    congr 2
    omega

theorem char?_toNat (c : Char) : char? c.toNat = some c := by
  have hvalid : c.toNat < 0xD800 ∨ 0xDFFF < c.toNat ∧ c.toNat < 0x110000 := c.valid
  have hrange : c.toNat < 0xD800 ∨ (0xDFFF < c.toNat ∧ c.toNat ≤ 0x10FFFF) := by omega
  have hchar : Char.ofNat c.toNat = c := Char.ofNat_toNat c
  simp [char?, hrange, hchar]

/-- A character is read from the digits of its number. -/
theorem readChar_digits {c : Char} {width : Nat} (h : c.toNat < Nat.pow 16 width) (rest : List Char) :
    readChar width (digits upperDigit width c.toNat ++ rest) = some (c, rest) := by
  simp [readChar, read, readFrom_digits h, char?_toNat]

end Hexadecimal

namespace Json

/-! ## Escapes -/

/-- Four digits are enough for every number below 65536. -/
theorem exists_hexFour {n : Nat} (h : n < 65536) :
    ∃ a b c d, Hexadecimal.digits Hexadecimal.lowerDigit 4 n = [a, b, c, d] ∧
      hexFour? a b c d = some n := by
  refine ⟨Hexadecimal.lowerDigit (n / 16 / 16 / 16 % 16), Hexadecimal.lowerDigit (n / 16 / 16 % 16),
    Hexadecimal.lowerDigit (n / 16 % 16), Hexadecimal.lowerDigit (n % 16), rfl, ?_⟩
  have hdigit (m : Nat) : Hexadecimal.value? (Hexadecimal.lowerDigit (m % 16)) = some (m % 16) :=
    Hexadecimal.value?_lowerDigit (Nat.mod_lt m (by decide))
  have hsum : (((n / 16 / 16 / 16 % 16) * 16 + n / 16 / 16 % 16) * 16 + n / 16 % 16) * 16 + n % 16 =
      n := by omega
  simp [hexFour?, hdigit, hsum]

variable {rest after : List Char} {units : List Nat}

theorem codeUnits_hex {a b c d : Char} {n : Nat} (hn : hexFour? a b c d = some n)
    (h : codeUnits rest = some (units, after)) :
    codeUnits ('\\' :: 'u' :: a :: b :: c :: d :: rest) = some (n :: units, after) := by
  simp [codeUnits, hn, h]

theorem codeUnits_plain {c : Char} (hquote : c ≠ '"') (hbackslash : c ≠ '\\')
    (hcontrol : ¬ c.toNat < 32) (h : codeUnits rest = some (units, after)) :
    codeUnits (c :: rest) = some (c.toNat :: units, after) := by
  rw [codeUnits.eq_def]
  split <;> simp_all

/-- Reading undoes the escape of one character. -/
theorem codeUnits_escapedChar (c : Char) (h : codeUnits rest = some (units, after)) :
    codeUnits (escapedChar c ++ rest) = some (c.toNat :: units, after) := by
  unfold escapedChar
  split
  · simp [codeUnits, simpleEscape?, *]
  rename_i hquote
  split
  · simp [codeUnits, simpleEscape?, *]
  rename_i hbackslash
  -- the five control characters that have a letter
  iterate 5
    split
    · simp [codeUnits, simpleEscape?, *]
  split
  · obtain ⟨x, y, z, w, hdigits, hvalue⟩ := exists_hexFour (n := c.toNat) (by omega)
    rw [hdigits]
    exact codeUnits_hex hvalue h
  · rename_i hcontrol
    exact codeUnits_plain hquote hbackslash hcontrol h

theorem codeUnits_flatMap_escapedChar (text rest : List Char) :
    codeUnits (text.flatMap escapedChar ++ '"' :: rest) = some (text.map Char.toNat, rest) := by
  induction text with
  | nil => simp [codeUnits]
  | cons c text ih =>
    rw [List.flatMap_cons, List.append_assoc]
    exact codeUnits_escapedChar c ih

/-! ## Surrogate pairs -/

/-- No character is half of a surrogate pair. -/
theorem not_isHalf (c : Char) : isHighHalf c.toNat = false ∧ isLowHalf c.toNat = false := by
  have hvalid : c.toNat < 0xD800 ∨ 0xDFFF < c.toNat ∧ c.toNat < 0x110000 := c.valid
  simp only [isHighHalf, isLowHalf, Bool.and_eq_false_iff, decide_eq_false_iff_not]
  omega

theorem textOfUnits_map_toNat (text : List Char) :
    textOfUnits (text.map Char.toNat) = some text := by
  induction text with
  | nil => rfl
  | cons c text ih =>
    obtain ⟨hhigh, hlow⟩ := not_isHalf c
    cases text with
    | nil => simp [textOfUnits, hhigh, hlow]
    | cons d text =>
      simp only [List.map_cons] at ih ⊢
      simp [textOfUnits, hhigh, hlow, ih]

/-- A written string is read as a token that stands for its text. -/
theorem readToken_stringText (text : String) (rest : List Char) :
    readToken (stringText text ++ rest) = some (.string (some text), rest) := by
  simp [readToken, stringText, punctuation?, readString, codeUnits_flatMap_escapedChar,
    textOfUnits_map_toNat]

end Json

end Eligibility
