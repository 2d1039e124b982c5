import Eligibility.Proofs.Printing

/-!
# Mixed connectives

The connectives of one level are all the same. A level that has been read up to an operand goes on
with the connective that it began with and with no other: a connective of the other kind is reported
where it stands, with the spelling of the first one beside its own, whatever comes after it.
-/

namespace Eligibility

/-- Operands with a word after each, and a blank after each operand and each word. -/
def Expression.wordedText : List (Expression × String) → String
  | [] => ""
  | (e, word) :: parts => e.operandText ++ " " ++ word ++ " " ++ wordedText parts

/-- Regular operands with words that spell the connective. -/
def SpellsParts (op : Connective) (parts : List (Expression × String)) : Prop :=
  ∀ p ∈ parts, p.1.IsRegular ∧ SpellsKeyword op.keyword p.2.toList

namespace Level

/-! ## Going on behind a text -/

/-- Reading the text takes the level to the next one, wherever the text stands and whatever follows
it. -/
def Passes (level : Level) (text : List Char) (next : Level) : Prop :=
  ∀ rest offset, level.parse ⟨text ++ rest, offset⟩ = next.parse ⟨rest, offset + byteLength text⟩

variable {level next last : Level} {text more : List Char} {e : Expression} {op : Connective}
  {word : String}

theorem Passes.refl (level : Level) : Passes level [] level := fun _ _ => rfl

theorem Passes.append (h : Passes level text next) (hmore : Passes next more last) :
    Passes level (text ++ more) last := by
  intro rest offset
  rw [List.append_assoc, h, hmore, byteLength_append, Nat.add_assoc]

theorem passes_blank (level : Level) : Passes level [' '] level :=
  fun rest offset => parse_blanks allBlank_space rest offset

/-- An operand with a blank after it. -/
theorem passes_operandText (he : e.IsRegular) (hexpecting : level.expecting = true) :
    Passes level (e.operandText.toList ++ [' ']) (level.push e) := by
  intro rest offset
  obtain ⟨closed, hspells⟩ := spellsOperand_text he
  have hends : EndsToken ([' '] ++ rest) := endsToken_cons.2 rfl
  rw [List.append_assoc, readsOperand_of_spells hspells (.inr hends) level offset hexpecting,
    passes_blank, byteLength_append, Nat.add_assoc]

/-- A connective that joins the level, with a blank after it. -/
theorem passes_connective (hexpecting : level.expecting = false)
    (hword : SpellsKeyword op.keyword word.toList)
    (hjoin : ∀ offset, level.join op ⟨word, false, offset⟩ = .ok next) :
    Passes level (word.toList ++ [' ']) next := by
  intro rest offset
  have hends : EndsToken ([' '] ++ rest) := endsToken_cons.2 rfl
  rw [List.append_assoc, parse_of_join hexpecting hword hends (by simpa using hjoin offset),
    passes_blank, byteLength_append, Nat.add_assoc]

/-! ## Operands and words -/

theorem toList_wordedText_cons (e : Expression) (word : String)
    (parts : List (Expression × String)) :
    (Expression.wordedText ((e, word) :: parts)).toList =
      e.operandText.toList ++ [' '] ++ (word.toList ++ [' ']) ++
        (Expression.wordedText parts).toList := by
  simp [Expression.wordedText]

/-- The first connective is remembered as it is written. -/
theorem passes_first (he : e.IsRegular) (hword : SpellsKeyword op.keyword word.toList) :
    Passes start (e.operandText.toList ++ [' '] ++ (word.toList ++ [' ']))
      ⟨[e], some (op, word), true⟩ := by
  have hoperand : Passes start (e.operandText.toList ++ [' ']) (start.push e) :=
    passes_operandText he rfl
  exact hoperand.append (passes_connective rfl hword fun _ => rfl)

/-- The same connective again changes nothing but that an operand is expected. -/
theorem passes_wordedText {parts : List (Expression × String)} (hparts : SpellsParts op parts)
    (operands : List Expression) (spelling : String) :
    Passes ⟨operands, some (op, spelling), true⟩ (Expression.wordedText parts).toList
      ⟨operands ++ parts.map Prod.fst, some (op, spelling), true⟩ := by
  -- The spelling that is remembered stays the same, while the operands before it grow.
  induction parts generalizing operands with
  | nil => simpa [Expression.wordedText] using Passes.refl ⟨operands, some (op, spelling), true⟩
  | cons p parts ih =>
    obtain ⟨e, word⟩ := p
    obtain ⟨he, hword⟩ := hparts (e, word) List.mem_cons_self
    have hoperand : Passes ⟨operands, some (op, spelling), true⟩ (e.operandText.toList ++ [' '])
        ⟨operands ++ [e], some (op, spelling), false⟩ := passes_operandText he rfl
    have hconnective : Passes ⟨operands ++ [e], some (op, spelling), false⟩ (word.toList ++ [' '])
        ⟨operands ++ [e], some (op, spelling), true⟩ :=
      passes_connective rfl hword fun _ => by simp [join]
    have hrest := ih (fun q hq => hparts q (List.mem_cons_of_mem _ hq)) (operands ++ [e])
    rw [toList_wordedText_cons]
    simpa using (hoperand.append hconnective).append hrest

/-- From the beginning of a level up to the operand that has to follow the last word. -/
theorem passes_parts {first : Expression × String} {parts : List (Expression × String)}
    (hparts : SpellsParts op (first :: parts)) :
    Passes start (Expression.wordedText (first :: parts)).toList
      ⟨(first :: parts).map Prod.fst, some (op, first.2), true⟩ := by
  obtain ⟨e, word⟩ := first
  obtain ⟨he, hword⟩ := hparts (e, word) List.mem_cons_self
  rw [toList_wordedText_cons]
  exact (passes_first he hword).append
    (passes_wordedText (fun q hq => hparts q (List.mem_cons_of_mem _ hq)) [e] word)

/-- The last operand of a level. -/
theorem parse_lastOperand (he : e.IsRegular) (hawaits : level.Awaits op) (offset : Nat) :
    level.parse ⟨e.operandText.toList, offset⟩ =
      .ok (Expression.joined op (level.operands ++ [e])) := by
  obtain ⟨closed, hspells⟩ := spellsOperand_text he
  have hread := parse_of_spellsSequence level (.last hspells) allBlank_nil hawaits offset
  rwa [List.append_nil] at hread

/-- A connective does not join a level that began with the other one. -/
theorem join_complement (operands : List Expression) (spelling : String) (expecting : Bool)
    (token : Token) :
    join ⟨operands, some (op, spelling), expecting⟩ op.complement token =
      .error (.mixedConnectives spelling token.text token.offset) := by
  cases op <;> rfl

end Level

/-- Regular operands that are joined by one connective, however it is spelled each time, are read as
they are. If the other connective stands behind them, it is reported there, whatever follows it. -/
theorem Expression.parse_wordedText (op : Connective) (first : Expression × String)
    (parts : List (Expression × String)) (hparts : SpellsParts op (first :: parts))
    (e : Expression) (he : e.IsRegular) :
    parse (wordedText (first :: parts) ++ e.operandText) =
        .ok (.logical op ((first :: parts).map Prod.fst ++ [e])) ∧
      ∀ word rest : String, SpellsKeyword op.complement.keyword word.toList →
        (∀ c ∈ rest.toList.head?, isBlank c = true) →
        parse (wordedText (first :: parts) ++ e.operandText ++ " " ++ word ++ rest) =
          .error (.mixedConnectives first.2 word
            (byteLength (wordedText (first :: parts) ++ e.operandText ++ " ").toList)) := by
  have hpasses := Level.passes_parts hparts
  constructor
  · have hlast := Level.parse_lastOperand he
      (Level.awaits_connective op ((first :: parts).map Prod.fst) first.2)
      (byteLength (wordedText (first :: parts)).toList)
    rw [joined_of_two_le (by simp)] at hlast
    have hread := hpasses e.operandText.toList 0
    rw [Nat.zero_add, hlast] at hread
    simpa [parse, parseAt, Cursor.ofString] using hread
  · intro word rest hword hrest
    have hends : EndsToken rest.toList := fun c hc => isDelimiter_of_isBlank (hrest c hc)
    have hoperand := hpasses.append (Level.passes_operandText he rfl)
    have hread := hoperand (word.toList ++ rest.toList) 0
    have hmixed := hread.trans
      (Level.parse_of_not_join rfl hword hends (Level.join_complement _ _ _ _))
    simpa [parse, parseAt, Cursor.ofString] using hmixed

/-- A group, characters of more than one byte, connectives in mixed case, and a continuation that is
no rule. -/
theorem Expression.parse_wordedText_malformed :
    parse ("(identity.a eq 'é' and identity.b eq '(') oR identity.c in ('😀') or " ++
        "identity.d eq ''") =
      .ok (.logical .or [
        .logical .and [
          .comparison ⟨.equal, ⟨.identity, "a"⟩, .single "é"⟩,
          .comparison ⟨.equal, ⟨.identity, "b"⟩, .single "("⟩],
        .comparison ⟨.oneOf, ⟨.identity, "c"⟩, .list ["😀"]⟩,
        .comparison ⟨.equal, ⟨.identity, "d"⟩, .single ""⟩]) ∧
    parse ("(identity.a eq 'é' and identity.b eq '(') oR identity.c in ('😀') or " ++
        "identity.d eq ''" ++ " " ++ "AND" ++ "\t)'") =
      .error (.mixedConnectives "oR" "AND" 89) := by
  have hparts : SpellsParts .or [
      (.logical .and [
        .comparison ⟨.equal, ⟨.identity, "a"⟩, .single "é"⟩,
        .comparison ⟨.equal, ⟨.identity, "b"⟩, .single "("⟩], "oR"),
      (.comparison ⟨.oneOf, ⟨.identity, "c"⟩, .list ["😀"]⟩, "or")] := by
    intro p hp
    rcases List.mem_cons.1 hp with rfl | hp
    · exact ⟨by simp [IsRegular, AllRegular], rfl⟩
    · obtain rfl := List.mem_singleton.1 hp
      exact ⟨by simp [IsRegular], rfl⟩
  have hread := parse_wordedText .or _ _ hparts
    (.comparison ⟨.equal, ⟨.identity, "d"⟩, .single ""⟩) (by simp [IsRegular])
  have htext : wordedText [
      (.logical .and [
        .comparison ⟨.equal, ⟨.identity, "a"⟩, .single "é"⟩,
        .comparison ⟨.equal, ⟨.identity, "b"⟩, .single "("⟩], "oR"),
      (.comparison ⟨.oneOf, ⟨.identity, "c"⟩, .list ["😀"]⟩, "or")] =
      "(identity.a eq 'é' and identity.b eq '(') oR identity.c in ('😀') or " := by
    decide +kernel
  have hlast : operandText (.comparison ⟨.equal, ⟨.identity, "d"⟩, .single ""⟩) =
      "identity.d eq ''" := by
    decide +kernel
  have hoffset : byteLength
      ("(identity.a eq 'é' and identity.b eq '(') oR identity.c in ('😀') or " ++
        "identity.d eq ''" ++ " ").toList = 89 := by
    decide +kernel
  rw [htext, hlast, hoffset] at hread
  exact ⟨hread.1, hread.2 "AND" "\t)'" rfl (by simp [isBlank])⟩

end Eligibility
