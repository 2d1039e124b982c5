import Eligibility.Characters

/-!
# Quoted strings

Putting a string between quotes and reading it back are inverse to each other. What follows a
quoted string must not begin with the same quote, for that would double the closing one.
-/

namespace Eligibility

/-! ## Character classes -/

theorem isDelimiter_of_isBlank {c : Char} (h : isBlank c = true) : isDelimiter c = true := by
  simp [isDelimiter, h]

theorem ne_parenthesis_of_isBlank {c : Char} (h : isBlank c = true) : c ≠ '(' ∧ c ≠ ')' := by
  constructor
  all_goals rintro rfl; cases h

theorem not_isBlank_of_not_isDelimiter {c : Char} (h : isDelimiter c = false) :
    isBlank c = false := by
  simp only [isDelimiter, Bool.or_eq_false_iff] at h
  exact h.1.1.1

theorem not_isQuote_of_isDelimiter {c : Char} (h : isDelimiter c = true) : isQuote c = false := by
  simp only [isDelimiter, isBlank, Bool.or_eq_true, beq_iff_eq] at h
  rcases h with (((((rfl | rfl) | rfl) | rfl) | rfl) | rfl) | rfl
  all_goals rfl

theorem isQuote_eq_true_iff {c : Char} : isQuote c = true ↔ c = '\'' ∨ c = '"' := by
  simp [isQuote]

/-! ## Reading the inside of a quoted string -/

@[simp] theorem doubled_nil (quote : Char) : doubled quote [] = [] := rfl

theorem doubled_cons_self (quote : Char) (text : List Char) :
    doubled quote (quote :: text) = quote :: quote :: doubled quote text := by
  simp [doubled]

theorem doubled_cons_of_ne {quote c : Char} (h : c ≠ quote) (text : List Char) :
    doubled quote (c :: text) = c :: doubled quote text := by
  simp [doubled, h]

theorem unquote_cons_of_ne {quote c : Char} (h : c ≠ quote) (rest : List Char) :
    unquote quote (c :: rest) = (unquote quote rest).map fun (text, rest) => (c :: text, rest) := by
  rw [unquote.eq_def]
  simp [h]

theorem unquote_closing {quote : Char} {rest : List Char} (h : rest.head? ≠ some quote) :
    unquote quote (quote :: rest) = some ([], rest) := by
  cases rest with
  | nil => simp [unquote]
  | cons d rest =>
    have hd : d ≠ quote := fun heq => h (by simp [heq])
    simp [unquote, hd]

theorem unquote_doubled {quote : Char} {rest : List Char} (h : rest.head? ≠ some quote)
    (text : List Char) :
    unquote quote (doubled quote text ++ quote :: rest) = some (text, rest) := by
  induction text with
  | nil => exact unquote_closing h
  | cons c text ih =>
    by_cases hc : c = quote
    · rw [hc, doubled_cons_self]
      simp [unquote, ih]
    · rw [doubled_cons_of_ne hc]
      rw [List.cons_append, unquote_cons_of_ne hc, ih]
      rfl

theorem eq_doubled_of_unquote {quote : Char} {text inner rest : List Char}
    (h : unquote quote text = some (inner, rest)) :
    text = doubled quote inner ++ quote :: rest ∧ rest.head? ≠ some quote := by
  fun_induction unquote quote text generalizing inner rest with
  | case1 => simp at h
  | case2 =>
    simp only [Option.some.injEq, Prod.mk.injEq] at h
    obtain ⟨rfl, rfl⟩ := h
    exact ⟨rfl, by simp⟩
  | case3 after ih =>
    obtain ⟨⟨i, r⟩, hr, heq⟩ := Option.map_eq_some_iff.1 h
    obtain ⟨rfl, rfl⟩ := Prod.mk.inj heq
    obtain ⟨rfl, hhead⟩ := ih hr
    exact ⟨by rw [doubled_cons_self]; rfl, hhead⟩
  | case4 d after hd =>
    simp only [Option.some.injEq, Prod.mk.injEq] at h
    obtain ⟨rfl, rfl⟩ := h
    exact ⟨rfl, by simpa using hd⟩
  | case5 c after hc ih =>
    obtain ⟨⟨i, r⟩, hr, heq⟩ := Option.map_eq_some_iff.1 h
    obtain ⟨rfl, rfl⟩ := Prod.mk.inj heq
    obtain ⟨rfl, hhead⟩ := ih hr
    exact ⟨by rw [doubled_cons_of_ne hc]; rfl, hhead⟩

/-- The inside of a quoted string is read exactly where a doubled string stands before a closing
quote that nothing doubles. -/
theorem unquote_eq_some {quote : Char} {text inner rest : List Char} :
    unquote quote text = some (inner, rest) ↔
      text = doubled quote inner ++ quote :: rest ∧ rest.head? ≠ some quote :=
  ⟨eq_doubled_of_unquote, fun ⟨htext, hrest⟩ => htext ▸ unquote_doubled hrest inner⟩

end Eligibility
