import Eligibility.Proofs.Parentheses
import Eligibility.Proofs.Printing

/-!
# Balanced texts

The inside of a group, described without the search that finds it. A text is cut into pieces, which
are whole quoted strings and single characters. It is balanced if its single characters never close
more parentheses than they have opened, and have closed all of them in the end.

The search stops exactly behind such a text, and canonical texts are among them, whatever characters
the names and values in them are made of (`Scan.readGroup_balanced`).
-/

namespace Eligibility

/-- A piece of a text. -/
inductive Piece where
  /-- A whole quoted string, with the text that it stands for. -/
  | quoted (quote : Char) (inner : List Char)
  /-- A character that stands outside of quoted strings. -/
  | single (c : Char)
deriving DecidableEq

/-- The characters that a piece is written in. -/
def Piece.text : Piece → List Char
  | quoted quote inner => quote :: doubled quote inner ++ [quote]
  | single c => [c]

/-- The characters of a piece that stand outside of quoted strings. -/
def Piece.outside : Piece → List Char
  | quoted _ _ => []
  | single c => [c]

/-- Whether a text is cut into these pieces as it should be, behind the given character if there is
one. Where a quoted string may begin, a quote begins one, and nowhere else. A quoted string is
whole: the quote that closes it is not the first of two. -/
def IsCut : Option Char → List Piece → Prop
  | _, [] => True
  | previous, .quoted quote _ :: pieces =>
    (isQuote quote = true ∧ QuotePlace previous ∧
      (pieces.flatMap Piece.text).head? ≠ some quote) ∧ IsCut (some quote) pieces
  | previous, .single c :: pieces =>
    (isQuote c = true → ¬ QuotePlace previous) ∧ IsCut (some c) pieces

/-- A text whose parentheses outside of quoted strings balance. -/
def IsBalanced (text : List Char) : Prop :=
  ∃ pieces, IsCut none pieces ∧ pieces.flatMap Piece.text = text ∧
    depthAfter 0 (pieces.flatMap Piece.outside) = some 0

/-! ## The texts that the search passes over -/

/-- What the search passes over, piece by piece. -/
theorem exists_pieces_of_nested {previous : Option Char} {depth : Nat} {text : List Char}
    (h : Nested previous depth text) :
    ∃ pieces, IsCut previous pieces ∧ pieces.flatMap Piece.text = text ∧
      depthAfter depth (pieces.flatMap Piece.outside) = some 0 := by
  induction h with
  | nil => exact ⟨[], trivial, rfl, rfl⟩
  | opening _ ih =>
    obtain ⟨pieces, hcut, rfl, hdepth⟩ := ih
    exact ⟨.single '(' :: pieces, ⟨nofun, hcut⟩, rfl, hdepth⟩
  | closing _ ih =>
    obtain ⟨pieces, hcut, rfl, hdepth⟩ := ih
    exact ⟨.single ')' :: pieces, ⟨nofun, hcut⟩, rfl, hdepth⟩
  | @quoted _ _ _ quote inner hquote hplace hend _ ih =>
    obtain ⟨pieces, hcut, rfl, hdepth⟩ := ih
    refine ⟨.quoted quote inner :: pieces, ⟨⟨hquote, hplace, hend⟩, hcut⟩, ?_, hdepth⟩
    simp [Piece.text]
  | @other _ _ _ c hc hquote _ ih =>
    obtain ⟨pieces, hcut, rfl, hdepth⟩ := ih
    exact ⟨.single c :: pieces, ⟨hquote, hcut⟩, rfl, (depthAfter_cons hc).trans hdepth⟩

theorem nested_of_pieces {pieces : List Piece} {previous : Option Char} {depth : Nat}
    (hcut : IsCut previous pieces)
    (hdepth : depthAfter depth (pieces.flatMap Piece.outside) = some 0) :
    Nested previous depth (pieces.flatMap Piece.text) := by
  induction pieces generalizing previous depth with
  | nil =>
    obtain rfl : depth = 0 := Option.some.inj hdepth
    exact .nil
  | cons piece pieces ih =>
    cases piece with
    | quoted quote inner =>
      obtain ⟨⟨hquote, hplace, hend⟩, hcut⟩ := hcut
      simpa [Piece.text] using Nested.quoted inner hquote hplace hend (ih hcut hdepth)
    | single c =>
      obtain ⟨hquote, hcut⟩ := hcut
      have hdepth : depthAfter depth (c :: pieces.flatMap Piece.outside) = some 0 := hdepth
      by_cases hopen : c = '('
      · subst hopen
        exact .opening (ih hcut hdepth)
      · by_cases hclose : c = ')'
        · subst hclose
          -- nothing is closed that is not open
          cases depth with
          | zero => cases hdepth
          | succ depth => exact .closing (ih hcut hdepth)
        · have hc : c ≠ '(' ∧ c ≠ ')' := ⟨hopen, hclose⟩
          exact .other hc hquote (ih hcut ((depthAfter_cons hc).symm.trans hdepth))

/-- The search passes over a text exactly if the text is balanced. -/
theorem wellNested_iff_isBalanced {text : List Char} : WellNested text ↔ IsBalanced text := by
  constructor
  · exact exists_pieces_of_nested
  · rintro ⟨pieces, hcut, rfl, hdepth⟩
    exact nested_of_pieces hcut hdepth

instance (text : List Char) : Decidable (IsBalanced text) :=
  decidable_of_iff (WellNested text) wellNested_iff_isBalanced

/-- A group is found exactly if the text from the cursor on is a balanced text, a parenthesis that
closes, and a rest: the inside of the group is the balanced text, at the offset of the cursor, and
the rest is left. The canonical text of every regular expression is balanced. -/
theorem Scan.readGroup_balanced :
    (∀ c inside next : Cursor, readGroup c = .ok inside next ↔
      ∃ text rest, c.rest = text ++ ')' :: rest ∧ IsBalanced text ∧ inside = ⟨text, c.offset⟩ ∧
        next = ⟨rest, c.offset + byteLength text + 1⟩) ∧
      ∀ e : Expression, e.IsRegular → IsBalanced e.text.toList := by
  constructor
  · intro c inside next
    have hclosing (text : List Char) :
        c.offset + byteLength (text ++ [')']) = c.offset + byteLength text + 1 := by
      have hsize : ')'.utf8Size = 1 := rfl
      rw [byteLength_append, byteLength_cons, byteLength_nil, hsize, Nat.add_zero, Nat.add_assoc]
    rw [readGroup_eq_ok]
    simp only [hclosing, wellNested_iff_isBalanced]
  · exact fun e he => wellNested_iff_isBalanced.1 (spells_text he).wellNested

/-- Parentheses and quotes of both kinds in strings, a quote inside of a word, and a group inside of
the group; and an expression whose names and values are made of them. -/
theorem Scan.readGroup_balanced_quotes :
    IsBalanced "a eq O'Brien and (b in (')''', \"(\") or c eq 1)".toList ∧
      readGroup ⟨"a eq O'Brien and (b in (')''', \"(\") or c eq 1)) or".toList, 7⟩ =
        .ok ⟨"a eq O'Brien and (b in (')''', \"(\") or c eq 1)".toList, 7⟩ ⟨" or".toList, 54⟩ ∧
      IsBalanced (Expression.text (.logical .or [
        .comparison ⟨.oneOf, ⟨.account ")'", "("⟩, .list ["'", "),("]⟩,
        .comparison ⟨.equal, ⟨.identity, "''"⟩, .single "("⟩])).toList := by
  have hbalanced : IsBalanced "a eq O'Brien and (b in (')''', \"(\") or c eq 1)".toList := by
    decide +kernel
  refine ⟨hbalanced, (readGroup_balanced.1 _ _ _).2 ⟨_, " or".toList, ?_, hbalanced, rfl, ?_⟩, ?_⟩
  · decide +kernel
  · decide +kernel
  · exact readGroup_balanced.2 _ (by simp [Expression.IsRegular, Expression.AllRegular])

end Eligibility
