import Eligibility.Expression.Printer
import Eligibility.Proofs.Fragments

/-!
# Texts in parentheses

What becomes of texts that can be read when they are put in parentheses and joined by a connective?
They keep their meaning if they are well nested. But the search for the end of a group does not
read the text it passes over. It takes a quote for the beginning of a string after every comma and
blank, also in the middle of a value without quotes, and it counts the parentheses that open in the
elements of a list. A text that is not well nested in this sense can be read alone and not in
parentheses (`Expression.parse_grouped`); it is never read with another meaning.
-/

namespace Eligibility

/-- Texts, each in parentheses, with a connective between each two. -/
def Connective.grouped (op : Connective) (texts : List String) : String :=
  op.separator.intercalate (texts.map fun text => "(" ++ text ++ ")")

namespace Connective

variable {op : Connective}

theorem toList_grouped_single (text : String) :
    (op.grouped [text]).toList = '(' :: text.toList ++ [')'] := by
  simp [grouped]

theorem toList_grouped_cons (text : String) {texts : List String} (h : texts ≠ []) :
    (op.grouped (text :: texts)).toList =
      '(' :: text.toList ++ [')'] ++ ([' '] ++ (op.keyword.toList ++
        ([' '] ++ (op.grouped texts).toList))) := by
  have hne : texts.map (fun text => "(" ++ text ++ ")") ≠ [] := by simpa using h
  simp [grouped, String.intercalate_cons_of_ne_nil hne, separator]

end Connective

namespace Level

variable {level : Level}

/-- What has been read if an operand in parentheses has been read. -/
theorem parse_opening_eq_ok {w : List Char} {offset : Nat} {e : Expression}
    (hexpecting : level.expecting = true) (h : level.parse ⟨'(' :: w, offset⟩ = .ok e) :
    ∃ text rest e', w = text ++ ')' :: rest ∧ WellNested text ∧
      start.parse ⟨text, offset + '('.utf8Size⟩ = .ok e' := by
  have hskip := skipBlanks_cons (d := '(') rfl w offset
  have hend : (⟨'(' :: w, offset⟩ : Cursor).skipBlanks.isAtEnd = false := by
    rw [hskip]
    rfl
  have hoperand : Scan.readOperand (⟨'(' :: w, offset⟩ : Cursor).skipBlanks =
      (Scan.Operand.group <$> Scan.readGroup) ⟨w, offset + '('.utf8Size⟩ := by
    rw [hskip]
    unfold Scan.readOperand
    rw [if_pos (Cursor.current?_cons _ _ _), Cursor.advance_cons]
  cases hgroup : Scan.readGroup ⟨w, offset + '('.utf8Size⟩ with
  | error error stopped =>
    rw [Scan.map_error hgroup] at hoperand
    rw [parse_of_operand_error hexpecting hend hoperand] at h
    cases h
  | ok inside next =>
    rw [Scan.map_ok hgroup] at hoperand
    obtain ⟨text, rest, rfl, htext, rfl, rfl⟩ := Scan.readGroup_eq_ok.1 hgroup
    cases hinside : start.parse ⟨text, offset + '('.utf8Size⟩ with
    | error error =>
      rw [parse_of_group_error hexpecting hend hoperand hinside] at h
      cases h
    | ok e' => exact ⟨text, rest, e', rfl, htext, hinside⟩

/-- A text that can be read cannot be read up to a parenthesis that closes in it. -/
theorem not_parse_of_parse {text rest : List Char} {offset : Nat} {e e' : Expression}
    (h : start.parse ⟨text, 0⟩ = .ok e) :
    start.parse ⟨text ++ ')' :: rest, offset⟩ ≠ .ok e' := by
  intro h'
  obtain ⟨error, herror⟩ := parse_followed (k := 0) rest h
  rw [parse_offset] at h'
  have hcursor : Cursor.moved 0 (')' :: rest) ⟨text, 0⟩ = ⟨text ++ ')' :: rest, 0⟩ := rfl
  rw [hcursor, h'] at herror
  cases herror

/-- If a text that can be read stands in parentheses, its group is cut out whole or not at all. -/
theorem wellNested_of_parse_group {text rest : List Char} {offset : Nat} {e e' : Expression}
    (hexpecting : level.expecting = true) (htext : start.parse ⟨text, 0⟩ = .ok e)
    (h : level.parse ⟨'(' :: text ++ [')'] ++ rest, offset⟩ = .ok e') : WellNested text := by
  have hwhole : '(' :: text ++ [')'] ++ rest = '(' :: (text ++ ')' :: rest) := by simp
  rw [hwhole] at h
  obtain ⟨inside, after, e'', hsplit, hnested, hinside⟩ := parse_opening_eq_ok hexpecting h
  rw [parse_offset] at hinside
  rcases List.append_eq_append_iff.1 hsplit with ⟨more, hmore, hafter⟩ | ⟨more, hmore, hafter⟩
  · cases more with
    | nil => simpa [hmore] using hnested
    | cons c more =>
      -- the group would end behind the text
      obtain rfl : ')' = c := (List.cons.inj hafter).1
      rw [hmore] at hinside
      exact absurd hinside (not_parse_of_parse htext)
  · cases more with
    | nil => simpa [hmore] using hnested
    | cons c more =>
      -- the group would end inside the text
      obtain rfl : ')' = c := (List.cons.inj hafter).1
      rw [hmore] at htext
      exact absurd htext (not_parse_of_parse hinside)

/-- Texts in parentheses are read as the rest of a level exactly if all of them are well nested. -/
theorem parse_groups (op : Connective) : ∀ (parts : List (String × Expression)) (level : Level),
    parts ≠ [] → (∀ p ∈ parts, Expression.parse p.1 = .ok p.2) → level.Awaits op →
    ∀ (offset : Nat) (e : Expression),
      level.parse ⟨(op.grouped (parts.map (·.1))).toList, offset⟩ = .ok e ↔
        (∀ p ∈ parts, WellNested p.1.toList) ∧
          e = Expression.joined op (level.operands ++ parts.map (·.2))
  | (text, e₁) :: parts, level, _, hparts, hawaits, offset, e => by
    have htext : start.parse ⟨text.toList, 0⟩ = .ok e₁ := hparts (text, e₁) List.mem_cons_self
    obtain ⟨rest, hwhole⟩ : ∃ rest, (op.grouped (((text, e₁) :: parts).map (·.1))).toList =
        '(' :: text.toList ++ [')'] ++ rest := by
      cases parts with
      | nil => exact ⟨[], by simp [Connective.toList_grouped_single]⟩
      | cons p parts => exact ⟨_, Connective.toList_grouped_cons text (by simp)⟩
    by_cases hnested : WellNested text.toList
    · have hfirst : ReadsOperand e₁ ('(' :: text.toList ++ [')']) rest :=
        readsOperand_group hnested fun _ => parse_offset.2 htext
      rw [hwhole, hfirst level offset hawaits.expecting]
      cases parts with
      | nil =>
        have hrest : rest = [] := by simpa [Connective.toList_grouped_single] using hwhole.symm
        rw [hrest, parse_allBlank allBlank_nil, finish_push hawaits]
        simp [hnested, eq_comm]
      | cons p parts =>
        have hne : (p :: parts).map (·.1) ≠ [] := by simp
        have hcons := hwhole.symm.trans (Connective.toList_grouped_cons text hne)
        have hends : EndsToken ([' '] ++ (op.grouped ((p :: parts).map (·.1))).toList) :=
          endsToken_cons.2 rfl
        obtain ⟨word, hconnective⟩ := parse_connective (level.push e₁) rfl hawaits.admits
          (spellsKeyword_self op.isPlain_keyword) hends
          (offset + byteLength ('(' :: text.toList ++ [')']) + byteLength [' '])
        rw [List.append_cancel_left hcons, parse_blanks allBlank_space, hconnective,
          parse_blanks allBlank_space, parse_groups op (p :: parts) _ (by simp)
            (fun q hq => hparts q (List.mem_cons_of_mem _ hq)) (awaits_connective op _ word)]
        simp [hnested, push]
    · constructor
      · intro h
        rw [hwhole] at h
        exact absurd (wellNested_of_parse_group hawaits.expecting htext h) hnested
      · rintro ⟨hall, -⟩
        exact absurd (hall (text, e₁) List.mem_cons_self) hnested

end Level

/-- Texts that can be read, in parentheses and joined by a connective, are read exactly if all of
them are well nested, and then as the combination of what they are alone. -/
theorem Expression.parse_grouped (op : Connective) (parts : List (String × Expression))
    (hne : parts ≠ []) (hparts : ∀ p ∈ parts, parse p.1 = .ok p.2) (e : Expression) :
    parse (op.grouped (parts.map (·.1))) = .ok e ↔
      (∀ p ∈ parts, WellNested p.1.toList) ∧ e = joined op (parts.map (·.2)) :=
  Level.parse_groups op parts Level.start hne hparts (Level.awaits_start op) 0 e

/-- Two texts with quotes and parentheses in their values that keep their meaning in parentheses. -/
theorem Expression.parse_grouped_quotes :
    parse "(identity.a eq O'Brien and identity.b eq ')') or (identity.c in ('''x(', y))" =
      .ok (.logical .or [
        .logical .and [
          .comparison ⟨.equal, ⟨.identity, "a"⟩, .single "O'Brien"⟩,
          .comparison ⟨.equal, ⟨.identity, "b"⟩, .single ")"⟩],
        .comparison ⟨.oneOf, ⟨.identity, "c"⟩, .list ["'x(", "y"]⟩]) :=
  (parse_grouped .or
    [
      ("identity.a eq O'Brien and identity.b eq ')'",
        .logical .and [
          .comparison ⟨.equal, ⟨.identity, "a"⟩, .single "O'Brien"⟩,
          .comparison ⟨.equal, ⟨.identity, "b"⟩, .single ")"⟩]),
      ("identity.c in ('''x(', y)", .comparison ⟨.oneOf, ⟨.identity, "c"⟩, .list ["'x(", "y"]⟩)]
    (by simp) (by decide +kernel) _).2 ⟨by decide +kernel, rfl⟩

/-- A value that can be read alone and not in parentheses: the quote after the comma is taken for
the beginning of a string. -/
theorem Expression.parse_grouped_commaQuote :
    parse "identity.a eq x,'y" = .ok (.comparison ⟨.equal, ⟨.identity, "a"⟩, .single "x,'y"⟩) ∧
      parse (Connective.and.grouped ["identity.a eq x,'y"]) = .error (.unmatchedQuote '\'' 17) := by
  decide +kernel

end Eligibility
