import Eligibility.Proofs.Balance

/-!
# Reading levels

A level of a rule is read one operand or connective at a time. The first lemmas say what each of
these steps does to the level, for any text in which the step succeeds. From them follows that
every spelling of an expression is read as that expression (`Level.parse_of_spells`), at any
offset: the induction is over the spelling, and a group in parentheses is cut out whole because
spellings are well nested.
-/

namespace Eligibility

-- with this, what is read from a fixed text can be checked by evaluation
instance decidableEqExcept {ε α : Type} [DecidableEq ε] [DecidableEq α] :
    DecidableEq (Except ε α)
  | .ok a, .ok b => decidable_of_iff (a = b) (by simp)
  | .error a, .error b => decidable_of_iff (a = b) (by simp)
  | .ok _, .error _ => isFalse (by simp)
  | .error _, .ok _ => isFalse (by simp)

/-- What the operands of one level mean together: a single one is the level, several are joined. -/
def Expression.joined (op : Connective) : List Expression → Expression
  | [e] => e
  | es => .logical op es

theorem Expression.joined_of_two_le {op : Connective} {es : List Expression}
    (h : 2 ≤ es.length) : joined op es = .logical op es := by
  unfold joined
  split
  · simp at h
  · rfl

namespace Level

variable {level : Level} {c next : Cursor}

/-! ## Single steps -/

theorem parse_of_atEnd (h : c.skipBlanks.isAtEnd = true) :
    level.parse c = level.finish c.skipBlanks.offset := by
  rw [parse]
  simp [h]

theorem parse_of_comparison {x : Comparison} (hexpecting : level.expecting = true)
    (hend : c.skipBlanks.isAtEnd = false)
    (hread : Scan.readOperand c.skipBlanks = .ok (.comparison x) next) :
    level.parse c = (level.push (.comparison x)).parse next := by
  rw [parse]
  simp only [hend, hexpecting, Bool.false_eq_true, if_false, if_true]
  split <;> simp_all

theorem parse_of_group {inside : Cursor} {e : Expression} (hexpecting : level.expecting = true)
    (hend : c.skipBlanks.isAtEnd = false)
    (hread : Scan.readOperand c.skipBlanks = .ok (.group inside) next)
    (hinside : start.parse inside = .ok e) : level.parse c = (level.push e).parse next := by
  rw [parse]
  simp only [hend, hexpecting, Bool.false_eq_true, if_false, if_true]
  split <;> simp_all

theorem parse_of_connective {op : Connective} {token : Token} {joined : Level}
    (hexpecting : level.expecting = false) (hend : c.skipBlanks.isAtEnd = false)
    (hread : Scan.readConnective c.skipBlanks = .ok (op, token) next)
    (hjoin : level.join op token = .ok joined) : level.parse c = joined.parse next := by
  rw [parse]
  simp only [hend, hexpecting, Bool.false_eq_true, if_false]
  split <;> simp_all

theorem parse_of_operand_error {e : ParseError} (hexpecting : level.expecting = true)
    (hend : c.skipBlanks.isAtEnd = false)
    (hread : Scan.readOperand c.skipBlanks = .error e next) : level.parse c = .error e := by
  rw [parse]
  simp only [hend, hexpecting, Bool.false_eq_true, if_false, if_true]
  split <;> simp_all

theorem parse_of_group_error {inside : Cursor} {e : ParseError}
    (hexpecting : level.expecting = true) (hend : c.skipBlanks.isAtEnd = false)
    (hread : Scan.readOperand c.skipBlanks = .ok (.group inside) next)
    (hinside : start.parse inside = .error e) : level.parse c = .error e := by
  rw [parse]
  simp only [hend, hexpecting, Bool.false_eq_true, if_false, if_true]
  split <;> simp_all

theorem parse_of_connective_error {e : ParseError} (hexpecting : level.expecting = false)
    (hend : c.skipBlanks.isAtEnd = false)
    (hread : Scan.readConnective c.skipBlanks = .error e next) : level.parse c = .error e := by
  rw [parse]
  simp only [hend, hexpecting, Bool.false_eq_true, if_false]
  split <;> simp_all

theorem parse_of_join_error {op : Connective} {token : Token} {e : ParseError}
    (hexpecting : level.expecting = false) (hend : c.skipBlanks.isAtEnd = false)
    (hread : Scan.readConnective c.skipBlanks = .ok (op, token) next)
    (hjoin : level.join op token = .error e) : level.parse c = .error e := by
  rw [parse]
  simp only [hend, hexpecting, Bool.false_eq_true, if_false]
  split <;> simp_all

/-- Blanks before an operand or a connective do not matter. -/
theorem parse_blanks {u : List Char} (hu : AllBlank u) (rest : List Char) (offset : Nat) :
    level.parse ⟨u ++ rest, offset⟩ = level.parse ⟨rest, offset + byteLength u⟩ := by
  rw [parse, parse.eq_def level ⟨rest, _⟩, Cursor.skipBlanks_blanks hu]

theorem parse_allBlank {u : List Char} (hu : AllBlank u) (offset : Nat) :
    level.parse ⟨u, offset⟩ = level.finish (offset + byteLength u) := by
  have hskip : (⟨u, offset⟩ : Cursor).skipBlanks = ⟨[], offset + byteLength u⟩ := by
    simpa using Cursor.skipBlanks_append hu [] (by simp) offset
  rw [parse_of_atEnd (by simp [hskip, Cursor.isAtEnd]), hskip]

/-! ## Operands -/

/-- Where an operand has to follow, the text is read as this one. -/
def ReadsOperand (e : Expression) (text rest : List Char) : Prop :=
  ∀ (level : Level) (offset : Nat), level.expecting = true →
    level.parse ⟨text ++ rest, offset⟩ = (level.push e).parse ⟨rest, offset + byteLength text⟩

/-- The character under the cursor is no blank, so a level goes on right here. -/
theorem skipBlanks_cons {d : Char} (hd : isBlank d = false) (tail : List Char) (offset : Nat) :
    (⟨d :: tail, offset⟩ : Cursor).skipBlanks = ⟨d :: tail, offset⟩ :=
  Cursor.skipBlanks_of_head (by simpa using hd) offset

theorem readsOperand_comparison {x : Comparison} {w rest : List Char}
    (hread : Scan.Reads Scan.readComparisonOperand w rest fun o => o = .comparison x)
    (hhead : BeginsToken w) :
    ReadsOperand (.comparison x) w rest := by
  intro level offset hexpecting
  obtain ⟨d, tail, rfl, hd⟩ := hhead
  obtain ⟨_, rfl, hread⟩ := hread offset
  have hskip := skipBlanks_cons (not_isBlank_of_not_isDelimiter hd) (tail ++ rest) offset
  have hopen : d ≠ '(' := by
    rintro rfl
    cases hd
  refine parse_of_comparison hexpecting (by rw [List.cons_append, hskip]; rfl) ?_
  rw [List.cons_append, hskip]
  unfold Scan.readOperand
  simpa [hopen] using hread

/-- A well-nested text in parentheses is an operand with the meaning that the text has alone. -/
theorem readsOperand_group {e : Expression} {w rest : List Char} (hw : WellNested w)
    (hparse : ∀ offset, start.parse ⟨w, offset⟩ = .ok e) :
    ReadsOperand e ('(' :: w ++ [')']) rest := by
  intro level offset hexpecting
  have hskip := skipBlanks_cons (d := '(') rfl (w ++ ')' :: rest) offset
  have htext : '(' :: w ++ [')'] ++ rest = '(' :: (w ++ ')' :: rest) := by simp
  have hgroup := Scan.readGroup_append hw rest (offset + '('.utf8Size)
  have hread : Scan.readOperand ⟨'(' :: (w ++ ')' :: rest), offset⟩ =
      .ok (.group ⟨w, offset + '('.utf8Size⟩)
        ⟨rest, offset + byteLength ('(' :: w ++ [')'])⟩ := by
    unfold Scan.readOperand
    rw [if_pos (Cursor.current?_cons _ _ _), Cursor.advance_cons, Scan.map_ok hgroup]
    simp [Nat.add_assoc]
  rw [htext]
  exact parse_of_group hexpecting (by rw [hskip]; rfl) (by rw [hskip]; exact hread) (hparse _)

/-! ## Connectives -/

/-- Whether the connectives read so far are the given one. -/
def Admits (level : Level) (op : Connective) : Prop := ∀ p ∈ level.connective, p.1 = op

theorem join_of_admits {op : Connective} (h : level.Admits op) (token : Token) :
    ∃ text, level.join op token = .ok ⟨level.operands, some (op, text), true⟩ := by
  unfold join
  cases hconnective : level.connective with
  | none => exact ⟨token.text, rfl⟩
  | some p =>
    obtain ⟨first, text⟩ := p
    obtain rfl : first = op := h (first, text) hconnective
    exact ⟨text, by simp⟩

theorem readConnective_append {op : Connective} {k rest : List Char}
    (hk : SpellsKeyword op.keyword k) (hrest : EndsToken rest) (offset : Nat) :
    Scan.readConnective ⟨k ++ rest, offset⟩ =
      .ok (op, ⟨String.ofList k, false, offset⟩) ⟨rest, offset + byteLength k⟩ := by
  have htoken := hk.readToken op.isPlain_keyword allBlank_nil hrest offset
  simp only [List.nil_append, byteLength_nil, Nat.add_zero] at htoken
  unfold Scan.readConnective
  rw [Scan.bind_ok htoken]
  simp only [Bool.false_eq_true, if_false, Connective.ofKeyword?_of_spells hk]
  rfl

/-- No blanks stand before a connective, so a level goes on right here. -/
theorem skipBlanks_connective {op : Connective} {k : List Char} (hk : SpellsKeyword op.keyword k)
    (rest : List Char) (offset : Nat) :
    (⟨k ++ rest, offset⟩ : Cursor).skipBlanks = ⟨k ++ rest, offset⟩ ∧
      (⟨k ++ rest, offset⟩ : Cursor).skipBlanks.isAtEnd = false := by
  obtain ⟨d, tail, rfl, hd⟩ := hk.beginsToken op.isPlain_keyword
  have hskip := skipBlanks_cons (not_isBlank_of_not_isDelimiter hd) (tail ++ rest) offset
  rw [List.cons_append, hskip]
  exact ⟨rfl, rfl⟩

/-- Reads a connective that joins the level. -/
theorem parse_of_join {op : Connective} {k rest : List Char} {joined : Level} {offset : Nat}
    (hexpecting : level.expecting = false) (hk : SpellsKeyword op.keyword k)
    (hrest : EndsToken rest)
    (hjoin : level.join op ⟨String.ofList k, false, offset⟩ = .ok joined) :
    level.parse ⟨k ++ rest, offset⟩ = joined.parse ⟨rest, offset + byteLength k⟩ := by
  obtain ⟨hskip, hend⟩ := skipBlanks_connective hk rest offset
  exact parse_of_connective hexpecting hend
    (by rw [hskip]; exact readConnective_append hk hrest offset) hjoin

/-- Reads a connective that the level refuses, whatever comes after it. -/
theorem parse_of_not_join {op : Connective} {k rest : List Char} {e : ParseError} {offset : Nat}
    (hexpecting : level.expecting = false) (hk : SpellsKeyword op.keyword k)
    (hrest : EndsToken rest)
    (hjoin : level.join op ⟨String.ofList k, false, offset⟩ = .error e) :
    level.parse ⟨k ++ rest, offset⟩ = .error e := by
  obtain ⟨hskip, hend⟩ := skipBlanks_connective hk rest offset
  exact parse_of_join_error hexpecting hend
    (by rw [hskip]; exact readConnective_append hk hrest offset) hjoin

/-- Reads a connective that may stand at this level. -/
theorem parse_connective (level : Level) {op : Connective} {k rest : List Char}
    (hexpecting : level.expecting = false) (hadmits : level.Admits op)
    (hk : SpellsKeyword op.keyword k) (hrest : EndsToken rest) (offset : Nat) :
    ∃ text, level.parse ⟨k ++ rest, offset⟩ =
      parse ⟨level.operands, some (op, text), true⟩ ⟨rest, offset + byteLength k⟩ := by
  obtain ⟨text, hjoin⟩ := join_of_admits hadmits ⟨String.ofList k, false, offset⟩
  exact ⟨text, parse_of_join hexpecting hk hrest hjoin⟩

/-- An operand has to follow, joined by the given connective to those before it. -/
structure Awaits (level : Level) (op : Connective) : Prop where
  /-- An operand has to follow. -/
  expecting : level.expecting = true
  /-- No other connective has been read. -/
  admits : level.Admits op
  /-- Operands have been read only together with a connective. -/
  connected : level.operands ≠ [] → level.connective ≠ none

theorem awaits_start (op : Connective) : start.Awaits op :=
  ⟨rfl, by simp [Admits, start], by simp [start]⟩

theorem awaits_connective (op : Connective) (operands : List Expression) (text : String) :
    Awaits ⟨operands, some (op, text), true⟩ op :=
  ⟨rfl, by simp [Admits], by simp⟩

/-- What a level means that ends with this operand. -/
theorem finish_push {op : Connective} (h : level.Awaits op) (e : Expression) (offset : Nat) :
    (level.push e).finish offset = .ok (Expression.joined op (level.operands ++ [e])) := by
  obtain ⟨operands, connective, expecting⟩ := level
  cases operands with
  | nil => rfl
  | cons first operands =>
    obtain ⟨⟨op', text⟩, rfl⟩ := Option.ne_none_iff_exists'.1 (h.connected (by simp))
    obtain rfl : op' = op := h.admits _ rfl
    cases operands <;> rfl

/-! ## Spellings -/

mutual

/-- A spelled operand is read, if what follows does not go on its last token. -/
theorem readsOperand_of_spells : ∀ {e : Expression} {closed : Bool} {w rest : List Char},
    SpellsOperand e closed w → closed = true ∨ EndsToken rest → ReadsOperand e w rest
  | _, _, _, _, .comparison hw, hrest =>
    readsOperand_comparison (Scan.reads_comparison hw hrest) hw.beginsToken
  | _, _, _, _, .group hw, _ =>
    readsOperand_group hw.wellNested (parse_of_spells hw)

/-- Spelled operands and connectives are read to the end of the level. -/
theorem parse_of_spellsSequence : ∀ {op : Connective} {es : List Expression} {w v : List Char}
    (level : Level), SpellsSequence op es w → AllBlank v → level.Awaits op →
    ∀ offset, level.parse ⟨w ++ v, offset⟩ = .ok (Expression.joined op (level.operands ++ es))
  | op, [e], _, _, level, .last hw, hv, hawaits, offset => by
    rw [readsOperand_of_spells hw (.inr hv.endsToken) level offset hawaits.expecting,
      parse_allBlank hv]
    exact finish_push hawaits e _
  | op, e :: es, _, v', level, .cons (w := w) (u := u) (k := k) (v := v) (t := t)
      hw hu hu' hk hv hv' ht, hblank, hawaits, offset => by
    have hafter : EndsToken (v ++ (t ++ v')) := by
      refine EndsToken.blanks hv (hv'.imp_right fun hhead => ?_)
      obtain ⟨tail, rfl⟩ : ∃ tail, t = '(' :: tail := by
        cases t with
        | nil => cases hhead
        | cons c tail => exact ⟨tail, by simpa using hhead⟩
      exact endsToken_cons.2 rfl
    have hbefore : _ ∨ EndsToken (u ++ (k ++ (v ++ (t ++ v')))) :=
      hu'.symm.imp_right fun hne => EndsToken.blanks hu (.inl hne)
    have htext : w ++ u ++ k ++ v ++ t ++ v' = w ++ (u ++ (k ++ (v ++ (t ++ v')))) := by simp
    rw [htext, readsOperand_of_spells hw hbefore level offset hawaits.expecting, parse_blanks hu]
    obtain ⟨text, hconnective⟩ := parse_connective (level.push e) rfl hawaits.admits hk hafter
      (offset + byteLength w + byteLength u)
    rw [hconnective, parse_blanks hv,
      parse_of_spellsSequence _ ht hblank (awaits_connective op _ text)]
    simp [push]

/-- Every spelling of an expression is read as that expression. -/
theorem parse_of_spells : ∀ {e : Expression} {w : List Char}, Spells e w →
    ∀ offset, start.parse ⟨w, offset⟩ = .ok e
  | _, _, .operand hu hw hv, offset => by
    rw [List.append_assoc, parse_blanks hu, readsOperand_of_spells hw (.inr hv.endsToken) _ _ rfl,
      parse_allBlank hv]
    rfl
  | _, _, .logical (w := w) hes hu hw hv, offset => by
    rw [List.append_assoc, parse_blanks hu, parse_of_spellsSequence start hw hv (awaits_start _)]
    exact congrArg _ (Expression.joined_of_two_le hes)

end

end Level

end Eligibility
