import Eligibility.Proofs.Levels
import Eligibility.Proofs.Relocation

/-!
# Levels in a moved text

A text is read the same way wherever it stands: with the same expression, or with the same error at
offsets that are increased by the distance (`Level.parse_moved`). But it is not read if it is
followed by a parenthesis that closes (`Level.parse_followed`), so no text that can be read goes on,
behind such a parenthesis, to another text that can be read.
-/

namespace Eligibility.Level

variable {level : Level} {c : Cursor} {k : Nat}

theorem join_moved (level : Level) (op : Connective) (token : Token) :
    level.join op (token.moved k) = (level.join op token).mapError (.moved k) := by
  unfold join
  split
  · rfl
  · split <;> rfl

theorem finish_moved (level : Level) (offset : Nat) :
    level.finish (offset + k) = (level.finish offset).mapError (.moved k) := by
  unfold finish
  split
  · rfl
  · split
    · rfl
    · split <;> rfl

/-! ## Single steps -/

section Steps

variable {tail : List Char} {next : Cursor}

theorem isAtEnd_moved (htail : ClosesGroup tail) (h : ¬ c.skipBlanks.isAtEnd = true) :
    (c.moved k tail).skipBlanks.isAtEnd = false := by
  rw [Cursor.skipBlanks_moved htail]
  exact Cursor.isAtEnd_moved (Bool.eq_false_iff.2 h)

theorem readOperand_moved (htail : ClosesGroup tail) {operand : Scan.Operand}
    (h : Scan.readOperand c.skipBlanks = .ok operand next) :
    Scan.readOperand (c.moved k tail).skipBlanks = .ok (operand.moved k) (next.moved k tail) := by
  have hmoved := Scan.relocates_readOperand (k := k) htail c.skipBlanks
  rw [h] at hmoved
  rw [Cursor.skipBlanks_moved htail]
  exact hmoved

theorem readOperand_moved_error {e : ParseError}
    (h : Scan.readOperand c.skipBlanks = .error e next) :
    Scan.readOperand (c.moved k []).skipBlanks = .error (e.moved k) (next.moved k []) := by
  have hmoved := Scan.relocates_readOperand (k := k) closesGroup_nil c.skipBlanks
  rw [h] at hmoved
  rw [Cursor.skipBlanks_moved closesGroup_nil]
  exact hmoved.error

theorem readConnective_moved (htail : ClosesGroup tail) {op : Connective} {token : Token}
    (h : Scan.readConnective c.skipBlanks = .ok (op, token) next) :
    Scan.readConnective (c.moved k tail).skipBlanks =
      .ok (op, token.moved k) (next.moved k tail) := by
  have hmoved := Scan.relocates_readConnective (k := k) htail c.skipBlanks
  rw [h] at hmoved
  rw [Cursor.skipBlanks_moved htail]
  exact hmoved

theorem readConnective_moved_error {e : ParseError}
    (h : Scan.readConnective c.skipBlanks = .error e next) :
    Scan.readConnective (c.moved k []).skipBlanks = .error (e.moved k) (next.moved k []) := by
  have hmoved := Scan.relocates_readConnective (k := k) closesGroup_nil c.skipBlanks
  rw [h] at hmoved
  rw [Cursor.skipBlanks_moved closesGroup_nil]
  exact hmoved.error

end Steps

/-! ## Whole levels -/

/-- A text that stands some bytes further on is read the same way. -/
theorem parse_moved (level : Level) (c : Cursor) :
    level.parse (c.moved k []) = (level.parse c).mapError (.moved k) := by
  have hnil := closesGroup_nil
  fun_induction parse level c with
  | case1 level c hend =>
    have hskip := Cursor.skipBlanks_moved (k := k) (c := c) hnil
    rw [parse_of_atEnd (by simpa [hskip] using hend), hskip]
    exact finish_moved level c.skipBlanks.offset
  | case2 level c hend hexpecting e stopped hread =>
    exact parse_of_operand_error hexpecting (isAtEnd_moved hnil hend)
      (readOperand_moved_error hread)
  | case3 level c hend hexpecting x next hread ih =>
    rw [parse_of_comparison hexpecting (isAtEnd_moved hnil hend) (readOperand_moved hnil hread), ih]
  | case4 level c hend hexpecting inside next hread e hinside ih =>
    rw [hinside] at ih
    exact parse_of_group_error hexpecting (isAtEnd_moved hnil hend)
      (readOperand_moved hnil hread) ih
  | case5 level c hend hexpecting inside next hread e hinside ih ih' =>
    rw [hinside] at ih
    rw [parse_of_group hexpecting (isAtEnd_moved hnil hend) (readOperand_moved hnil hread) ih, ih']
  | case6 level c hend hexpecting e stopped hread =>
    exact parse_of_connective_error (Bool.eq_false_iff.2 hexpecting) (isAtEnd_moved hnil hend)
      (readConnective_moved_error hread)
  | case7 level c hend hexpecting op token next hread e hjoin =>
    have hjoin' := join_moved (k := k) level op token
    rw [hjoin] at hjoin'
    exact parse_of_join_error (Bool.eq_false_iff.2 hexpecting) (isAtEnd_moved hnil hend)
      (readConnective_moved hnil hread) hjoin'
  | case8 level c hend hexpecting op token next hread joined hjoin ih =>
    have hjoin' := join_moved (k := k) level op token
    rw [hjoin] at hjoin'
    rw [parse_of_connective (Bool.eq_false_iff.2 hexpecting) (isAtEnd_moved hnil hend)
      (readConnective_moved hnil hread) hjoin', ih]

/-- Whether a text is read, and as what, does not depend on its offset. -/
theorem parse_offset {text : List Char} {offset : Nat} {e : Expression} :
    start.parse ⟨text, offset⟩ = .ok e ↔ start.parse ⟨text, 0⟩ = .ok e := by
  have hmoved := parse_moved (k := offset) start ⟨text, 0⟩
  have hcursor : Cursor.moved offset [] ⟨text, 0⟩ = ⟨text, offset⟩ := by simp [Cursor.moved]
  rw [hcursor] at hmoved
  rw [hmoved]
  cases start.parse ⟨text, 0⟩ with
  | ok e' => exact Iff.rfl
  | error error =>
    constructor <;>
    · intro h
      cases h

/-- A parenthesis that closes is no connective. -/
theorem readConnective_closing (rest : List Char) (offset : Nat) :
    Scan.readConnective ⟨')' :: rest, offset⟩ =
      .error (.expectedConnective "" offset) ⟨')' :: rest, offset⟩ := by
  have htoken := Scan.readToken_none allBlank_nil (c := ')') rest rfl rfl rfl offset
  rw [List.nil_append] at htoken
  unfold Scan.readConnective
  rw [Scan.bind_ok htoken]
  rfl

/-- What is read as a whole text is not read if a parenthesis closes behind it. -/
theorem parse_followed {e : Expression} (rest : List Char) (h : level.parse c = .ok e) :
    ∃ error, level.parse (c.moved k (')' :: rest)) = .error error := by
  have htail := closesGroup_cons rest
  fun_induction parse level c with
  | case1 level c hend =>
    have hskip := Cursor.skipBlanks_moved (k := k) (c := c) htail
    have hrest : c.skipBlanks.rest = [] := by simpa [Cursor.isAtEnd] using hend
    have hclosing : c.skipBlanks.moved k (')' :: rest) =
        ⟨')' :: rest, c.skipBlanks.offset + k⟩ := by
      simp [Cursor.moved, hrest]
    -- the level is complete, so a connective has to follow
    have hcomplete : level.expecting = false := by
      unfold finish at h
      split at h
      · cases h
      · split at h
        · cases h
        · simp_all
    rw [← hskip] at hclosing
    have hread := readConnective_closing rest (c.skipBlanks.offset + k)
    rw [← hclosing] at hread
    exact ⟨_, parse_of_connective_error hcomplete (by rw [hclosing]; rfl) hread⟩
  | case2 => cases h
  | case3 level c hend hexpecting x next hread ih =>
    obtain ⟨error, herror⟩ := ih h
    refine ⟨error, ?_⟩
    rw [parse_of_comparison hexpecting (isAtEnd_moved htail hend) (readOperand_moved htail hread),
      herror]
  | case4 => cases h
  | case5 level c hend hexpecting inside next hread e hinside ih ih' =>
    obtain ⟨error, herror⟩ := ih' h
    refine ⟨error, ?_⟩
    have hmoved := parse_moved (k := k) start inside
    rw [hinside] at hmoved
    rw [parse_of_group hexpecting (isAtEnd_moved htail hend) (readOperand_moved htail hread) hmoved,
      herror]
  | case6 => cases h
  | case7 => cases h
  | case8 level c hend hexpecting op token next hread joined hjoin ih =>
    obtain ⟨error, herror⟩ := ih h
    refine ⟨error, ?_⟩
    have hjoin' := join_moved (k := k) level op token
    rw [hjoin] at hjoin'
    rw [parse_of_connective (Bool.eq_false_iff.2 hexpecting) (isAtEnd_moved htail hend)
      (readConnective_moved htail hread) hjoin', herror]

end Eligibility.Level

namespace Eligibility.Expression

/-- A text that begins at any offset is read as it is read alone, or the same error is found in it
with all offsets increased by that offset. So the place of the parenthesis before a group, which is
one byte before the inside, is never cut off at zero. -/
theorem parseAt_offset (text : String) (base : Nat) :
    parseAt ⟨text.toList, base⟩ = (parse text).mapError (.moved base) := by
  have hmoved := Level.parse_moved (k := base) Level.start (Cursor.ofString text)
  have hcursor : (Cursor.ofString text).moved base [] = ⟨text.toList, base⟩ := by
    simp [Cursor.moved, Cursor.ofString]
  rwa [hcursor] at hmoved

end Eligibility.Expression
