import Eligibility.Scan.Group
import Eligibility.Proofs.Reading

/-!
# Well-nested texts

A text is well nested if its parentheses balance, where those inside quoted strings do not count. A
quote opens a string at the start of the text and after a delimiter or a comma; elsewhere it is a
character like any other.

The search for the end of a group finds a parenthesis exactly if a well-nested text stands before
it (`Scan.readGroup_eq_ok`). So a group is read as it is meant if its inside is well nested, and in
no other case.
-/

namespace Eligibility

/-- A place where a quoted string may begin: at the start of a text, or after a delimiter or a
comma. The character before the place is given, if there is one. -/
def QuotePlace (previous : Option Char) : Prop := ∀ p ∈ previous, isDelimiter p = true ∨ p = ','

theorem quotePlace_none : QuotePlace none := by simp [QuotePlace]

theorem quotePlace_some {p : Char} : QuotePlace (some p) ↔ isDelimiter p = true ∨ p = ',' := by
  simp [QuotePlace]

theorem GroupSearch.mayQuoteAfter_eq_true {previous : Option Char} :
    mayQuoteAfter previous = true ↔ QuotePlace previous := by
  cases previous <;> simp [mayQuoteAfter, QuotePlace]

/-- A text that closes all parentheses it opens, and the given number of others, and none besides.
The character before the text decides whether it may begin with a quoted string. -/
inductive Nested : Option Char → Nat → List Char → Prop where
  /-- The end of the text. -/
  | nil {previous : Option Char} : Nested previous 0 []
  /-- A parenthesis opens. -/
  | opening {previous : Option Char} {depth : Nat} {text : List Char}
      (h : Nested (some '(') (depth + 1) text) : Nested previous depth ('(' :: text)
  /-- A parenthesis closes. -/
  | closing {previous : Option Char} {depth : Nat} {text : List Char}
      (h : Nested (some ')') depth text) : Nested previous (depth + 1) (')' :: text)
  /-- A whole quoted string. -/
  | quoted {previous : Option Char} {depth : Nat} {text : List Char} {quote : Char}
      (inner : List Char) (hquote : isQuote quote = true) (hplace : QuotePlace previous)
      (hend : text.head? ≠ some quote) (h : Nested (some quote) depth text) :
      Nested previous depth (quote :: doubled quote inner ++ quote :: text)
  /-- Any other character. -/
  | other {previous : Option Char} {depth : Nat} {text : List Char} {c : Char}
      (hc : c ≠ '(' ∧ c ≠ ')') (hquote : isQuote c = true → ¬ QuotePlace previous)
      (h : Nested (some c) depth text) : Nested previous depth (c :: text)

/-- A text whose parentheses balance outside of quoted strings. -/
def WellNested (text : List Char) : Prop := Nested none 0 text

namespace GroupSearch

/-! ## One step of the search -/

variable {opening : Nat} {previous : Option Char} {depth offset : Nat} {rest : List Char}

theorem step_opening :
    step opening ⟨⟨'(' :: rest, offset⟩, depth, previous⟩ =
      .more ⟨⟨rest, offset + '('.utf8Size⟩, depth + 1, some '('⟩ := by
  simp [step]

theorem step_closing :
    step opening ⟨⟨')' :: rest, offset⟩, depth + 2, previous⟩ =
      .more ⟨⟨rest, offset + ')'.utf8Size⟩, depth + 1, some ')'⟩ := by
  simp [step]

theorem step_found :
    step opening ⟨⟨')' :: rest, offset⟩, 1, previous⟩ = .found ⟨')' :: rest, offset⟩ := by
  simp [step]

theorem step_quoted {quote : Char} {inner : List Char} (hquote : isQuote quote = true)
    (hplace : QuotePlace previous) (hend : rest.head? ≠ some quote) :
    step opening ⟨⟨quote :: doubled quote inner ++ quote :: rest, offset⟩, depth, previous⟩ =
      .more ⟨⟨rest, offset + byteLength (quote :: doubled quote inner ++ [quote])⟩, depth,
        some quote⟩ := by
  have hspecial : quote ≠ '(' ∧ quote ≠ ')' := by
    rcases isQuote_eq_true_iff.1 hquote with rfl | rfl <;> decide
  have hread := Scan.readQuoted_append hend inner offset
  simp only [List.cons_append, List.append_assoc, List.nil_append] at hread
  simp [step, hspecial, hquote, mayQuoteAfter_eq_true.2 hplace, hread]

theorem step_other {c : Char} (hc : c ≠ '(' ∧ c ≠ ')')
    (hquote : isQuote c = true → ¬ QuotePlace previous) :
    step opening ⟨⟨c :: rest, offset⟩, depth, previous⟩ =
      .more ⟨⟨rest, offset + c.utf8Size⟩, depth, some c⟩ := by
  have hno : (isQuote c && mayQuoteAfter previous) = false := by
    refine Bool.eq_false_iff.2 fun h => ?_
    rw [Bool.and_eq_true, mayQuoteAfter_eq_true] at h
    exact hquote h.1 h.2
  simp [step, hc, hno]

theorem run_of_more {s next : GroupSearch} (h : s.step opening = .more next) :
    s.run opening = next.run opening := by
  rw [run]
  split <;> simp_all

theorem run_of_found {s : GroupSearch} {closing : Cursor} (h : s.step opening = .found closing) :
    s.run opening = .ok closing closing := by
  rw [run]
  split <;> simp_all

theorem run_of_failed {s : GroupSearch} {e : ParseError} {stopped : Cursor}
    (h : s.step opening = .failed e stopped) : s.run opening = .error e stopped := by
  rw [run]
  split <;> simp_all

/-! ## The whole search -/

/-- The search comes to the parenthesis after a text that closes all but one of the open ones. -/
theorem run_of_nested {text : List Char} (h : Nested previous depth text) (opening : Nat)
    (rest : List Char) : ∀ offset,
    run opening ⟨⟨text ++ ')' :: rest, offset⟩, depth + 1, previous⟩ =
      .ok ⟨')' :: rest, offset + byteLength text⟩ ⟨')' :: rest, offset + byteLength text⟩ := by
  induction h with
  | nil => exact fun offset => run_of_found step_found
  | opening _ ih =>
    intro offset
    rw [List.cons_append, run_of_more step_opening, ih, byteLength_cons, Nat.add_assoc]
  | closing _ ih =>
    intro offset
    rw [List.cons_append, run_of_more step_closing, ih, byteLength_cons, Nat.add_assoc]
  | @quoted _ _ text quote inner hquote hplace hend _ ih =>
    intro offset
    have hend' : (text ++ ')' :: rest).head? ≠ some quote := by
      cases text with
      | nil => rcases isQuote_eq_true_iff.1 hquote with rfl | rfl <;> simp
      | cons c text => simpa using hend
    have htext : quote :: doubled quote inner ++ quote :: text ++ ')' :: rest =
        quote :: doubled quote inner ++ quote :: (text ++ ')' :: rest) := by simp
    rw [htext, run_of_more (step_quoted hquote hplace hend'), ih]
    simp [Nat.add_assoc]
  | other hc hquote _ ih =>
    intro offset
    rw [List.cons_append, run_of_more (step_other hc hquote), ih, byteLength_cons, Nat.add_assoc]

/-- What a step that goes on has moved over. -/
inductive Passes (depth : Nat) (previous : Option Char) (offset : Nat) :
    List Char → GroupSearch → Prop where
  /-- A parenthesis opens. -/
  | opening {rest : List Char} : Passes depth previous offset ('(' :: rest)
      ⟨⟨rest, offset + '('.utf8Size⟩, depth + 1, some '('⟩
  /-- A parenthesis closes, but not the last one. -/
  | closing {rest : List Char} (hdepth : depth - 1 ≠ 0) : Passes depth previous offset (')' :: rest)
      ⟨⟨rest, offset + ')'.utf8Size⟩, depth - 1, some ')'⟩
  /-- A quoted string. -/
  | quoted {quote : Char} {inner rest : List Char} (hquote : isQuote quote = true)
      (hplace : QuotePlace previous) (hend : rest.head? ≠ some quote) :
      Passes depth previous offset (quote :: doubled quote inner ++ quote :: rest)
        ⟨⟨rest, offset + byteLength (quote :: doubled quote inner ++ [quote])⟩, depth, some quote⟩
  /-- Another character. -/
  | other {c : Char} {rest : List Char} (hc : c ≠ '(' ∧ c ≠ ')')
      (hquote : isQuote c = true → ¬ QuotePlace previous) : Passes depth previous offset (c :: rest)
      ⟨⟨rest, offset + c.utf8Size⟩, depth, some c⟩

theorem passes_of_step {whole : List Char} {next : GroupSearch}
    (h : step opening ⟨⟨whole, offset⟩, depth, previous⟩ = .more next) :
    Passes depth previous offset whole next := by
  cases whole with
  | nil => cases h
  | cons c rest =>
    simp only [step, Cursor.current?_cons] at h
    split at h
    · rename_i hc
      subst hc
      cases h
      exact .opening
    · split at h
      · rename_i hc
        subst hc
        split at h
        · cases h
        · rename_i hdepth
          cases h
          exact .closing hdepth
      · rename_i hopen hclose
        split at h
        · rename_i hquote
          rw [Bool.and_eq_true, mayQuoteAfter_eq_true] at hquote
          split at h
          · rename_i text after hread
            cases h
            obtain ⟨inner, rest, rfl, hend, -, rfl⟩ := Scan.readQuoted_eq_ok hread
            exact .quoted hquote.1 hquote.2 hend
          · cases h
        · rename_i hquote
          rw [Bool.and_eq_true, mayQuoteAfter_eq_true] at hquote
          cases h
          exact .other ⟨hopen, hclose⟩ fun h hplace => hquote ⟨h, hplace⟩

theorem eq_of_step_found {whole : List Char} {closing : Cursor}
    (h : step opening ⟨⟨whole, offset⟩, depth + 1, previous⟩ = .found closing) :
    depth = 0 ∧ (∃ rest, whole = ')' :: rest) ∧ closing = ⟨whole, offset⟩ := by
  cases whole with
  | nil => cases h
  | cons c rest =>
    simp only [step, Cursor.current?_cons] at h
    split at h
    · cases h
    · split at h
      · rename_i hc
        subst hc
        split at h
        · rename_i hdepth
          cases h
          exact ⟨by omega, ⟨rest, rfl⟩, rfl⟩
        · cases h
      · split at h
        · split at h <;> cases h
        · cases h

/-- Where the search ends, a well-nested text lies behind it. -/
theorem nested_of_run {s : GroupSearch} {closing after : Cursor}
    (h : s.run opening = .ok closing after) (hdepth : s.depth = depth + 1) :
    ∃ text rest, s.cursor.rest = text ++ ')' :: rest ∧ Nested s.previous depth text ∧
      closing = ⟨')' :: rest, s.cursor.offset + byteLength text⟩ := by
  fun_induction run opening s generalizing depth with
  | case1 s next hstep ih =>
    obtain ⟨⟨whole, offset⟩, d, previous⟩ := s
    obtain rfl : d = depth + 1 := hdepth
    cases passes_of_step hstep with
    | opening =>
      obtain ⟨text, rest, rfl, htext, rfl⟩ := ih h rfl
      exact ⟨'(' :: text, rest, rfl, .opening htext, by simp [Nat.add_assoc]⟩
    | closing hne =>
      obtain ⟨n, hn⟩ := Nat.exists_eq_succ_of_ne_zero hne
      obtain rfl : depth = n + 1 := by omega
      obtain ⟨text, rest, rfl, htext, rfl⟩ := ih h hn
      exact ⟨')' :: text, rest, rfl, .closing htext, by simp [Nat.add_assoc]⟩
    | @quoted quote inner rest hquote hplace hend =>
      obtain ⟨text, rest, rfl, htext, rfl⟩ := ih h rfl
      refine ⟨quote :: doubled quote inner ++ quote :: text, rest, by simp,
        .quoted inner hquote hplace ?_ htext, by simp [Nat.add_assoc]⟩
      cases text with
      | nil => simp
      | cons c text => simpa using hend
    | other hc hquote =>
      obtain ⟨text, rest, rfl, htext, rfl⟩ := ih h rfl
      exact ⟨_ :: text, rest, rfl, .other hc hquote htext, by simp [Nat.add_assoc]⟩
  | case2 s found hstep =>
    obtain ⟨⟨whole, offset⟩, d, previous⟩ := s
    obtain rfl : d = depth + 1 := hdepth
    obtain ⟨rfl, ⟨rest, rfl⟩, rfl⟩ := eq_of_step_found hstep
    cases h
    exact ⟨[], rest, rfl, .nil, rfl⟩
  | case3 => cases h

end GroupSearch

/-- The inside of a group is the well-nested text before its closing parenthesis. -/
theorem Scan.readGroup_append {text : List Char} (h : WellNested text) (rest : List Char)
    (offset : Nat) :
    readGroup ⟨text ++ ')' :: rest, offset⟩ =
      .ok ⟨text, offset⟩ ⟨rest, offset + byteLength (text ++ [')'])⟩ := by
  have hrun := GroupSearch.run_of_nested h (offset - 1) rest offset
  unfold readGroup GroupSearch.start
  rw [hrun]
  simp [Nat.add_assoc]

/-- A group is found exactly if a well-nested text and a closing parenthesis stand after the
opening one; its inside is that text. -/
theorem Scan.readGroup_eq_ok {whole : List Char} {offset : Nat} {inside next : Cursor} :
    readGroup ⟨whole, offset⟩ = .ok inside next ↔
      ∃ text rest, whole = text ++ ')' :: rest ∧ WellNested text ∧ inside = ⟨text, offset⟩ ∧
        next = ⟨rest, offset + byteLength (text ++ [')'])⟩ := by
  constructor
  · intro h
    have hread := h
    unfold readGroup at h
    split at h
    · rename_i closing after hrun
      obtain ⟨text, rest, rfl, htext, -⟩ := GroupSearch.nested_of_run hrun rfl
      rw [readGroup_append htext] at hread
      cases hread
      exact ⟨text, rest, rfl, htext, rfl, rfl⟩
    · cases h
  · rintro ⟨text, rest, rfl, htext, rfl, rfl⟩
    exact readGroup_append htext rest offset

/-- Whether a text is well nested is found out by a search for a parenthesis put behind it. -/
theorem wellNested_iff_readGroup {text : List Char} :
    WellNested text ↔
      Scan.readGroup ⟨text ++ [')'], 0⟩ = .ok ⟨text, 0⟩ ⟨[], byteLength (text ++ [')'])⟩ := by
  rw [Scan.readGroup_eq_ok]
  constructor
  · exact fun h => ⟨text, [], rfl, h, rfl, by simp⟩
  · rintro ⟨inside, rest, -, hinside, heq, -⟩
    cases heq
    exact hinside

instance (text : List Char) : Decidable (WellNested text) :=
  match h : Scan.readGroup ⟨text ++ [')'], 0⟩ with
  | .ok inside next =>
    decidable_of_iff (inside = ⟨text, 0⟩ ∧ next = ⟨[], byteLength (text ++ [')'])⟩)
      (by rw [wellNested_iff_readGroup, h]; simp)
  | .error _ _ => isFalse fun hnested => by
    rw [wellNested_iff_readGroup, h] at hnested
    cases hnested

end Eligibility
