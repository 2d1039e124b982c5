import Eligibility.Hexadecimal

/-!
# Plain scalars that are no strings

A reader that does not know what to expect takes some plain scalars for something else than a string:
for nothing, for a truth value, or for a number. A string that looks like one of these is written
between quotes. So is a run of digits that starts with a zero, since some readers take it for a
number.
-/

namespace Eligibility.Yaml

/-- Whether a scalar means nothing. -/
def looksNull (text : String) : Bool := ["", "~", "null", "Null", "NULL"].contains text

/-- Whether a scalar is a truth value. -/
def looksBool (text : String) : Bool :=
  ["true", "True", "TRUE", "false", "False", "FALSE"].contains text

/-- A text without one sign at its start. -/
def withoutSign : List Char → List Char
  | c :: rest => if c = '+' || c = '-' then rest else c :: rest
  | [] => []

/-! ## Integers -/

/-- The number that digits denote in a base. -/
def digitsValue? (base : Nat) (digits : List Char) : Option Nat :=
  if digits.isEmpty then none
  else
    digits.foldlM (fun n c =>
      (Hexadecimal.value? c).bind fun d => if d < base then some (n * base + d) else none) 0

/-- The absolute value of an integer with the letter of a base other than ten. -/
def basedValue? : List Char → Option Nat
  | '0' :: 'x' :: digits => digitsValue? 16 digits
  | '0' :: 'o' :: digits => digitsValue? 8 digits
  | '0' :: 'b' :: digits => digitsValue? 2 digits
  | _ => none

/-- Whether a scalar is an integer with the letter of a base, of at most 128 bits. -/
def looksBased (text : List Char) : Bool :=
  match text with
  | '-' :: digits => (basedValue? digits).any (· ≤ Nat.pow 2 127)
  | _ => (basedValue? (if text.head? = some '+' then text.tail else text)).any (· < Nat.pow 2 128)

/-- Whether a scalar is a run of digits that starts with a zero and has more digits. -/
def looksPadded (text : List Char) : Bool :=
  match withoutSign text with
  | '0' :: rest => !rest.isEmpty && rest.all Char.isDigit
  | _ => false

/-! ## Decimal numbers -/

/-- A decimal number: its digits, and by how many places the point is moved to the right. -/
structure Decimal where
  /-- The digits. -/
  digits : List Char
  /-- The places. -/
  shift : Int

/-- The number that an exponent denotes. -/
def exponent? : List Char → Option Int
  | [] => none
  | c :: rest =>
    let digits := if c = '+' || c = '-' then rest else c :: rest
    (digitsValue? 10 digits).map fun n => if c = '-' then -(n : Int) else n

/-- The decimal number without a sign that a text denotes. -/
def decimal? (text : List Char) : Option Decimal :=
  let whole := text.takeWhile Char.isDigit
  let rest := text.dropWhile Char.isDigit
  let (fraction, rest) := match rest with
    | '.' :: rest => (rest.takeWhile Char.isDigit, rest.dropWhile Char.isDigit)
    | _ => ([], rest)
  let digits := whole ++ fraction
  if digits.isEmpty then none
  else
    match rest with
    | [] => some ⟨digits, -fraction.length⟩
    | c :: rest =>
      if c = 'e' || c = 'E' then (exponent? rest).map fun n => ⟨digits, n - fraction.length⟩ else none

/-- The least number that is rounded to infinity in 64 bits. -/
def leastInfinite : Nat := Nat.pow 2 1024 - Nat.pow 2 970

/-- Whether a number is finite in 64 bits. -/
def Decimal.isFinite (d : Decimal) : Bool :=
  let significant := d.digits.dropWhile (· == '0')
  let magnitude := significant.length + d.shift
  if significant.isEmpty || magnitude < 309 then true
  else if 309 < magnitude then false
  else
    let n := (digitsValue? 10 significant).getD 0
    if d.shift < 0 then n < leastInfinite * Nat.pow 10 d.shift.natAbs
    else n * Nat.pow 10 d.shift.natAbs < leastInfinite

/-- Whether a scalar is an infinity or the value of no number. -/
def looksSpecial (text : String) : Bool :=
  [".nan", ".NaN", ".NAN", ".inf", ".Inf", ".INF", "+.inf", "+.Inf", "+.INF", "-.inf", "-.Inf",
    "-.INF"].contains text

/-- Whether a scalar is a decimal number. -/
def looksDecimal (text : List Char) : Bool := (decimal? (withoutSign text)).any Decimal.isFinite

/-- Whether a plain scalar would be taken for something else than a string, or for a number by some
readers. -/
def looksTyped (text : String) : Bool :=
  looksNull text || looksBool text || looksBased text.toList || looksPadded text.toList ||
    looksSpecial text || looksDecimal text.toList

end Eligibility.Yaml
