/-!
# Hexadecimal numbers

The digits that formats use for characters which cannot stand as they are. Reading takes either
case; `digits` writes a number with a fixed width, in the case that is asked for.
-/

namespace Eligibility.Hexadecimal

/-- The value of a digit, in either case. -/
def value? (c : Char) : Option Nat :=
  if '0' ≤ c && c ≤ '9' then some (c.toNat - 48)
  else if 'a' ≤ c && c ≤ 'f' then some (c.toNat - 87)
  else if 'A' ≤ c && c ≤ 'F' then some (c.toNat - 55)
  else none

/-- A digit in lower case. -/
def lowerDigit (n : Nat) : Char := Char.ofNat (if n < 10 then 48 + n else 87 + n)

/-- A digit in upper case. -/
def upperDigit (n : Nat) : Char := Char.ofNat (if n < 10 then 48 + n else 55 + n)

/-- The last digits of a number, as many as asked for. -/
def digits (digit : Nat → Char) : Nat → Nat → List Char
  | 0, _ => []
  | width + 1, n => digits digit width (n / 16) ++ [digit (n % 16)]

/-- Reads so many digits, after those that denote the given number. -/
def readFrom (n : Nat) : Nat → List Char → Option (Nat × List Char)
  | 0, text => some (n, text)
  | _ + 1, [] => none
  | width + 1, c :: text =>
    match value? c with
    | some d => readFrom (n * 16 + d) width text
    | none => none

/-- Reads a number with so many digits. -/
def read (width : Nat) (text : List Char) : Option (Nat × List Char) := readFrom 0 width text

/-- Digits are taken from the start of the text. -/
theorem length_readFrom {n width value : Nat} {text rest : List Char}
    (h : readFrom n width text = some (value, rest)) : text.length = rest.length + width := by
  induction width generalizing n text with
  | zero => cases h; rfl
  | succ width ih =>
    cases text with
    | nil => cases h
    | cons c text =>
      simp only [readFrom] at h
      split at h
      · have := ih h
        simp only [List.length_cons]
        omega
      · cases h

theorem length_read {width value : Nat} {text rest : List Char}
    (h : read width text = some (value, rest)) : text.length = rest.length + width :=
  length_readFrom h

/-- The character with a number, if there is one. -/
def char? (n : Nat) : Option Char :=
  if n < 0xD800 || (0xDFFF < n && n ≤ 0x10FFFF) then some (Char.ofNat n) else none

/-- Reads a character that is written as so many digits. -/
def readChar (width : Nat) (text : List Char) : Option (Char × List Char) :=
  match read width text with
  | some (n, rest) => (char? n).map fun c => (c, rest)
  | none => none

theorem length_readChar {width : Nat} {c : Char} {text rest : List Char}
    (h : readChar width text = some (c, rest)) : text.length = rest.length + width := by
  unfold readChar at h
  split at h
  · rename_i n after hread
    obtain ⟨d, _, heq⟩ := Option.map_eq_some_iff.1 h
    cases heq
    exact length_read hread
  · cases h

end Eligibility.Hexadecimal
