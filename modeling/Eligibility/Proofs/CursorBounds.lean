import Eligibility.Proofs.ScanAgreement

/-!
# Cursors never leave the text

Whatever is done with a cursor, in any order and with failures in between, its index is one at which
a character of the text begins or the text ends, and it never decreases; every slice that is cut out
of the text is one, and the count of open parentheses is never lowered below zero
(`Cursor.Operation.performAll_safe`). All this is seen with the cursor that indexes the text, which
does the same as the one that holds the unread text, one operation after the other.
-/

namespace Eligibility

/-! ## Operations -/

/-- The operations on a cursor. -/
inductive Cursor.Operation where
  | current
  | advance
  | isAtEnd
  | skipSpace
  | skipBlanks
  | readToken
  | takeUntil (stop : Char → Bool) (required : Bool)
  | readGroup

/-- What an operation gives if it does not fail. -/
inductive Cursor.Answer where
  | nothing
  | character (c : Option Char)
  | truth (value : Bool)
  | token (t : Token)
  | text (t : String)
  | group (offset : Nat) (text : String)
deriving DecidableEq

namespace Cursor.Operation

/-- The operation on a cursor that holds the unread text. -/
def perform : Operation → Scan Answer
  | current => return .character (← get).current?
  | advance => do
    modify Cursor.advance
    return .character (← get).current?
  | isAtEnd => return .truth (← get).isAtEnd
  | skipSpace => (fun _ => .nothing) <$> Scan.skipSpace
  | skipBlanks => do
    modify Cursor.skipBlanks
    return .nothing
  | readToken => .token <$> Scan.readToken
  | takeUntil stop required => .text <$> Scan.takeUntil stop required
  | readGroup =>
    (fun inside => .group inside.1 inside.2) <$>
      (fun inside : Cursor => (inside.offset, String.ofList inside.rest)) <$> Scan.readGroup

/-- The operation on a cursor that indexes the text. -/
def performAt : Operation → IndexedScan Answer
  | current => return .character (← get).current?
  | advance => do
    modify IndexedCursor.advance
    return .character (← get).current?
  | isAtEnd => return .truth (← get).isAtEnd
  | skipSpace => (fun _ => .nothing) <$> IndexedScan.skipSpace
  | skipBlanks => do
    modify IndexedCursor.skipBlanks
    return .nothing
  | readToken => .token <$> IndexedScan.readToken
  | takeUntil stop required => .text <$> IndexedScan.takeUntil stop required
  | readGroup => (fun inside => .group inside.1 inside.2) <$> IndexedScan.readGroup

theorem agrees (op : Operation) : IndexedScan.Agrees op.performAt op.perform := by
  intro b c h
  cases op with
  | current => exact .get (h.current? ▸ .pure h _)
  | advance =>
    have hnext : performAt advance b = some (.ok (.character b.advance.current?), b.advance) := rfl
    rw [h.advance.current?] at hnext
    exact .ok (.character c.advance.current?) rfl hnext b.follows_advance h.advance
  | isAtEnd => exact .get (h.isAtEnd ▸ .pure h _)
  | skipSpace => exact IndexedScan.agrees_skipSpace.map _ b c h
  | skipBlanks => exact .ok .nothing rfl rfl b.follows_skipBlanks h.skipBlanks
  | readToken => exact IndexedScan.agrees_readToken.map _ b c h
  | takeUntil stop required => exact (IndexedScan.agrees_takeUntil stop required).map _ b c h
  | readGroup => exact IndexedScan.agrees_readGroup.map _ b c h

/-- A sequence of operations, each from where the one before left the cursor, whether it failed or
not. -/
def performAll : List Operation → Cursor → List (Except ParseError Answer) × Cursor
  | [], c => ([], c)
  | op :: ops, c =>
    let (result, next) := op.perform.outcome c
    let (results, last) := performAll ops next
    (result :: results, last)

/-- The same sequence on a cursor that indexes the text. It has no outcome if one of the operations
has none. -/
def performAllAt : List Operation → IndexedCursor →
    Option (List (Except ParseError Answer) × IndexedCursor)
  | [], b => some ([], b)
  | op :: ops, b => do
    let (result, next) ← op.performAt b
    let (results, last) ← performAllAt ops next
    return (result :: results, last)

/-- From the same place, both sequences have an outcome, give the same results and come to the same
place. -/
theorem performAllAt_eq (ops : List Operation) {b : IndexedCursor} {c : Cursor} (h : b.Shows c) :
    ∃ b', performAllAt ops b = some ((performAll ops c).1, b') ∧ b.Follows b' ∧
      b'.Shows (performAll ops c).2 := by
  induction ops generalizing b c with
  | nil => exact ⟨b, rfl, .refl b, h⟩
  | cons op ops ih =>
    obtain ⟨next, hop, hfollows, hnext⟩ := op.agrees b c h
    obtain ⟨last, hops, hfollows', hlast⟩ := ih hnext
    refine ⟨last, ?_, hfollows.trans hfollows', hlast⟩
    simp [performAllAt, performAll, hop, hops]

end Cursor.Operation

/-- A cursor stands in a text, where a character begins or at the end. -/
structure IndexedCursor.InText (text : String) (base : Nat) (b : IndexedCursor) : Prop where
  text_eq : b.text = text
  offset_eq : b.offset = base + b.index
  index_le : b.index ≤ text.utf8ByteSize
  isValid : (⟨b.index⟩ : String.Pos.Raw).IsValid text
  current?_eq_none_iff : b.current? = none ↔ b.index = text.utf8ByteSize

theorem IndexedCursor.Leaves.inText {text : String} {base : Nat} {b : IndexedCursor}
    {rest : List Char} (h : b.Leaves rest) (hfollows : (start text base).Follows b) :
    b.InText text base := by
  have htext : b.text = text := hfollows.text
  have hbase : b.base = base := hfollows.base
  rw [← htext, ← hbase]
  refine ⟨rfl, rfl, h.index_le, StandsAt.isValid h, ?_⟩
  rw [h.current?, List.head?_eq_none_iff]
  exact h.eq_nil_iff

/-- Whatever is done with a cursor at the start of a text, no slice is taken that is none and the
count of open parentheses is not lowered below zero: there is an outcome, and it is that of the
cursor that holds the unread text. Both cursors come to the same place, which is in the text, and
nothing that is done later leads back from there. -/
theorem Cursor.Operation.performAll_safe (text : String) (base : Nat) (ops later : List Operation) :
    ∃ b b', performAllAt ops (.start text base) =
        some ((performAll ops ⟨text.toList, base⟩).1, b) ∧
      b.Shows (performAll ops ⟨text.toList, base⟩).2 ∧ b.InText text base ∧
      performAllAt later b =
        some ((performAll later (performAll ops ⟨text.toList, base⟩).2).1, b') ∧
      b.index ≤ b'.index := by
  have hstart : (IndexedCursor.start text base).Shows ⟨text.toList, base⟩ :=
    ⟨⟨[], rfl, rfl⟩, rfl⟩
  obtain ⟨b, hops, hfollows, hshows⟩ := performAllAt_eq ops hstart
  obtain ⟨b', hlater, hfollows', -⟩ := performAllAt_eq later hshows
  exact ⟨b, b', hops, hshows, hshows.leaves.inText hfollows, hlater, hfollows'.index⟩

end Eligibility
