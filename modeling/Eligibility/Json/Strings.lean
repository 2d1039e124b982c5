import Eligibility.Hexadecimal

/-!
# JSON strings

Inside a string, quotes, backslashes and control characters are escaped, and everything else stands
as it is. A reader accepts any character in escaped form; characters beyond U+FFFF are escaped as a
pair of surrogates, each half as a `\u` escape of its own.

`codeUnits` reads the inside of a string up to its closing quote, with each half of a pair by
itself, and `textOfUnits` joins the halves. A half without its other half stands for no text.
-/

namespace Eligibility.Json

/-- The number that four hexadecimal digits denote. -/
def hexFour? (a b c d : Char) : Option Nat := do
  let a ← Hexadecimal.value? a
  let b ← Hexadecimal.value? b
  let c ← Hexadecimal.value? c
  let d ← Hexadecimal.value? d
  return ((a * 16 + b) * 16 + c) * 16 + d

/-- How a character is written inside a string. -/
def escapedChar (c : Char) : List Char :=
  if c = '"' then ['\\', '"']
  else if c = '\\' then ['\\', '\\']
  else if c = '\x08' then ['\\', 'b']
  else if c = '\x0c' then ['\\', 'f']
  else if c = '\n' then ['\\', 'n']
  else if c = '\r' then ['\\', 'r']
  else if c = '\t' then ['\\', 't']
  else if c.toNat < 32 then '\\' :: 'u' :: Hexadecimal.digits Hexadecimal.lowerDigit 4 c.toNat
  else [c]

/-- A string between quotes. -/
def stringText (text : String) : List Char :=
  '"' :: text.toList.flatMap escapedChar ++ ['"']

/-- What a backslash and one more character stand for. -/
def simpleEscape? (c : Char) : Option Char :=
  if c = '"' then some '"'
  else if c = '\\' then some '\\'
  else if c = '/' then some '/'
  else if c = 'b' then some '\x08'
  else if c = 'f' then some '\x0c'
  else if c = 'n' then some '\n'
  else if c = 'r' then some '\r'
  else if c = 't' then some '\t'
  else none

/-- Reads the inside of a string and its closing quote: the code points that it denotes, and the
text after it. -/
def codeUnits : List Char → Option (List Nat × List Char)
  | [] => none
  | '"' :: rest => some ([], rest)
  | '\\' :: 'u' :: a :: b :: c :: d :: rest =>
    match hexFour? a b c d, codeUnits rest with
    | some n, some (units, after) => some (n :: units, after)
    | _, _ => none
  | '\\' :: e :: rest =>
    match simpleEscape? e, codeUnits rest with
    | some c, some (units, after) => some (c.toNat :: units, after)
    | _, _ => none
  | c :: rest =>
    if c.toNat < 32 then none
    else (codeUnits rest).map fun (units, after) => (c.toNat :: units, after)

/-- Whether a code point is the first half of a surrogate pair. -/
def isHighHalf (n : Nat) : Bool := 0xD800 ≤ n && n < 0xDC00

/-- Whether a code point is the second half of a surrogate pair. -/
def isLowHalf (n : Nat) : Bool := 0xDC00 ≤ n && n < 0xE000

/-- The characters that code points denote, if every half of a pair has its other half. -/
def textOfUnits : List Nat → Option (List Char)
  | [] => some []
  | [n] => if isHighHalf n || isLowHalf n then none else some [Char.ofNat n]
  | n :: m :: units =>
    if isHighHalf n then
      if isLowHalf m then
        (textOfUnits units).map (Char.ofNat (0x10000 + (n - 0xD800) * 0x400 + (m - 0xDC00)) :: ·)
      else none
    else if isLowHalf n then none
    else (textOfUnits (m :: units)).map (Char.ofNat n :: ·)

/-- What follows a string is shorter than the string with its closing quote. -/
theorem length_codeUnits_lt {text rest : List Char} {units : List Nat}
    (h : codeUnits text = some (units, rest)) : rest.length < text.length := by
  fun_induction codeUnits text generalizing units rest with
  | case1 => cases h
  | case2 => cases h; simp
  | case3 =>
    rename_i hunits _ ih
    cases h
    have := ih hunits
    simp only [List.length_cons]
    omega
  | case4 => cases h
  | case5 =>
    rename_i hunits _ ih
    cases h
    have := ih hunits
    simp only [List.length_cons]
    omega
  | case6 => cases h
  | case7 => cases h
  | case8 =>
    rename_i ih
    obtain ⟨⟨u, r⟩, hunits, heq⟩ := Option.map_eq_some_iff.1 h
    have := ih hunits
    simp only [Prod.mk.injEq] at heq
    simp only [List.length_cons, ← heq.2]
    omega

end Eligibility.Json
