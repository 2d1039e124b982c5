/-!
# JSON numbers

The spelling of a number: an optional minus, an integer part without superfluous zeros, and
optionally a fraction and an exponent. `readNumber` reads the longest such spelling.

`inRange` tells whether a number can be represented: in double precision it must not round to
infinity. The digits are first cut to what 64 bits hold; the rest counts as zeros.
-/

namespace Eligibility.Json

/-- Whether a character is a decimal digit. -/
def isDigit (c : Char) : Bool := '0' ≤ c && c ≤ '9'

/-- The parts of the spelling of a number. -/
structure NumberText where
  /-- Whether it begins with a minus. -/
  negative : Bool
  /-- The digits of the integer part. -/
  whole : List Char
  /-- The digits after the point; none if there is no point. -/
  fraction : List Char
  /-- Whether the exponent is negative. -/
  negativeExponent : Bool
  /-- The digits of the exponent; none if there is no exponent. -/
  exponent : List Char

/-- Reads the integer part. -/
def readWhole (text : List Char) : Option (List Char × List Char) :=
  match text.takeWhile isDigit, text.dropWhile isDigit with
  | [], _ => none
  | '0' :: _ :: _, _ => none
  | digits, rest => some (digits, rest)

/-- Reads a fraction, if there is one. -/
def readFraction (text : List Char) : Option (List Char × List Char) :=
  match text with
  | '.' :: rest =>
    if (rest.takeWhile isDigit).isEmpty then none
    else some (rest.takeWhile isDigit, rest.dropWhile isDigit)
  | _ => some ([], text)

/-- Reads the digits of an exponent. -/
def readExponentDigits (negative : Bool) (text : List Char) :
    Option (Bool × List Char × List Char) :=
  if (text.takeWhile isDigit).isEmpty then none
  else some (negative, text.takeWhile isDigit, text.dropWhile isDigit)

/-- Reads an exponent, if there is one. -/
def readExponent (text : List Char) : Option (Bool × List Char × List Char) :=
  match text with
  | [] => some (false, [], [])
  | e :: rest =>
    if e = 'e' || e = 'E' then
      match rest with
      | '+' :: rest => readExponentDigits false rest
      | '-' :: rest => readExponentDigits true rest
      | _ => readExponentDigits false rest
    else some (false, [], text)

/-- Reads a number after its sign. -/
def readUnsigned (negative : Bool) (text : List Char) : Option (NumberText × List Char) := do
  let (whole, text) ← readWhole text
  let (fraction, text) ← readFraction text
  let (negativeExponent, exponent, text) ← readExponent text
  return ({ negative, whole, fraction, negativeExponent, exponent }, text)

/-- Reads a number. -/
def readNumber (text : List Char) : Option (NumberText × List Char) :=
  match text with
  | '-' :: rest => readUnsigned true rest
  | _ => readUnsigned false text

/-- The digits of a number cut to what 64 bits hold, while they are gathered. -/
structure Significand where
  /-- The value of the digits kept. -/
  value : Nat
  /-- How many of the last digits were looked at. -/
  places : Nat
  /-- Whether a digit was cut already. -/
  full : Bool

/-- One more digit. -/
def Significand.push (s : Significand) (digit : Char) : Significand :=
  let value := s.value * 10 + (digit.toNat - 48)
  if s.full || value ≥ Nat.pow 2 64 then { s with full := true } else ⟨value, s.places + 1, false⟩

/-- A natural number with all but its 53 leading bits rounded away, ties to even. -/
def roundTo53 (n : Nat) : Nat :=
  if n < Nat.pow 2 53 then n
  else
    let unit := Nat.pow 2 (n.log2 - 52)
    let quotient := n / unit
    let remainder := n % unit
    let up := remainder * 2 > unit || (remainder * 2 == unit && quotient % 2 == 1)
    (if up then quotient + 1 else quotient) * unit

/-- The value of decimal digits. -/
def digitsValue (digits : List Char) : Nat :=
  digits.foldl (fun n c => n * 10 + (c.toNat - 48)) 0

/-- Whether a number is within double precision. -/
def NumberText.inRange (t : NumberText) : Bool :=
  let whole := t.whole.foldl Significand.push ⟨0, 0, false⟩
  let dropped := t.whole.length - whole.places
  let all := t.fraction.foldl Significand.push ⟨whole.value, 0, false⟩
  let written := digitsValue t.exponent
  let exponent : Int :=
    (dropped : Int) - all.places + (if t.negativeExponent then -(written : Int) else written)
  all.value == 0 || exponent < 0 ||
    (exponent ≤ 308 &&
      roundTo53 all.value * roundTo53 (Nat.pow 10 exponent.toNat) < Nat.pow 2 1024 - Nat.pow 2 970)

/-- What follows a number is shorter than the text it is read from. -/
theorem length_readNumber_lt {text rest : List Char} {n : NumberText}
    (h : readNumber text = some (n, rest)) : rest.length < text.length := by
  have drop_le (t : List Char) : (t.dropWhile isDigit).length ≤ t.length :=
    (List.dropWhile_sublist _).length_le
  have whole_lt {t digits rest : List Char} (h : readWhole t = some (digits, rest)) :
      rest.length < t.length := by
    have hsplit := congrArg List.length (List.takeWhile_append_dropWhile (p := isDigit) (l := t))
    rw [List.length_append] at hsplit
    unfold readWhole at h
    split at h
    · cases h
    · cases h
    · rename_i heq _
      cases h
      have : 0 < (t.takeWhile isDigit).length := List.length_pos_iff.2 (by assumption)
      omega
  have fraction_le {t digits rest : List Char} (h : readFraction t = some (digits, rest)) :
      rest.length ≤ t.length := by
    unfold readFraction at h
    split at h
    · rename_i r
      split at h
      · cases h
      · cases h
        have := drop_le r
        simp only [List.length_cons]
        omega
    · cases h; exact Nat.le_refl _
  have digits_le {neg neg' : Bool} {t digits rest : List Char}
      (h : readExponentDigits neg t = some (neg', digits, rest)) : rest.length ≤ t.length := by
    unfold readExponentDigits at h
    split at h
    · cases h
    · cases h; exact drop_le t
  have exponent_le {neg : Bool} {t digits rest : List Char}
      (h : readExponent t = some (neg, digits, rest)) : rest.length ≤ t.length := by
    unfold readExponent at h
    split at h
    · cases h; exact Nat.le_refl _
    · split at h
      · split at h <;> · have := digits_le h; simp only [List.length_cons]; omega
      · cases h; exact Nat.le_refl _
  have unsigned_lt {neg : Bool} {t rest : List Char} {n : NumberText}
      (h : readUnsigned neg t = some (n, rest)) : rest.length < t.length := by
    unfold readUnsigned at h
    cases hw : readWhole t with
    | none => simp [hw] at h
    | some w =>
      obtain ⟨whole, t₁⟩ := w
      cases hf : readFraction t₁ with
      | none => simp [hw, hf] at h
      | some f =>
        obtain ⟨fraction, t₂⟩ := f
        cases he : readExponent t₂ with
        | none => simp [hw, hf, he] at h
        | some e =>
          obtain ⟨neg, exponent, t₃⟩ := e
          simp only [hw, hf, he, Option.bind_eq_bind, Option.bind_some, Option.pure_def,
            Option.some.injEq, Prod.mk.injEq] at h
          have := whole_lt hw
          have := fraction_le hf
          have := exponent_le he
          rw [← h.2]
          omega
  unfold readNumber at h
  split at h
  · have := unsigned_lt h
    simp only [List.length_cons]
    omega
  · exact unsigned_lt h

end Eligibility.Json
