import Eligibility.Proofs.Tokens

/-!
# Reading spelled lists of values

The inside of a list of values is read element by element, each with the symbol after it. An
element without quotes ends before that symbol and is trimmed, so the blanks around it do not count
and it is read as spelled only if it is its own trim.
-/

namespace Eligibility.Scan

theorem isWhitespace_of_isBlank {c : Char} (h : isBlank c = true) : isWhitespace c = true := by
  simp only [isBlank, Bool.or_eq_true, beq_iff_eq] at h
  rcases h with ((rfl | rfl) | rfl) | rfl <;> decide

/-- A text that is not shortened by trimming does not begin with whitespace. -/
theorem head_of_trimmed_eq {c : Char} {tail : List Char} (h : trimmed (c :: tail) = c :: tail) :
    isWhitespace c = false := by
  refine Bool.eq_false_iff.2 fun hc => ?_
  have hlength := congrArg List.length h
  have hfirst := (List.dropWhile_sublist isWhitespace (l := tail)).length_le
  have hlast := (List.dropWhile_sublist isWhitespace
    (l := (tail.dropWhile isWhitespace).reverse)).length_le
  simp only [trimmed, List.dropWhile_cons_of_pos hc, List.length_reverse,
    List.length_cons] at hlength hlast
  omega

/-- Trimming takes away the blanks after a text that it does not shorten. -/
theorem trimmed_append_blanks {w v : List Char} (hne : w ≠ []) (hw : trimmed w = w)
    (hv : AllBlank v) : trimmed (w ++ v) = w := by
  obtain ⟨c, tail, rfl⟩ := List.exists_cons_of_ne_nil hne
  have hc := head_of_trimmed_eq hw
  have hend : (c :: tail).reverse.dropWhile isWhitespace = (c :: tail).reverse := by
    have hreverse := congrArg List.reverse hw
    rwa [trimmed, List.dropWhile_cons_of_neg (by simp [hc]), List.reverse_reverse] at hreverse
  have hblanks : ∀ d ∈ v.reverse, isWhitespace d = true := fun d hd =>
    isWhitespace_of_isBlank (hv d (List.mem_reverse.1 hd))
  rw [trimmed, List.cons_append, List.dropWhile_cons_of_neg (by simp [hc]), ← List.cons_append,
    List.reverse_append, List.dropWhile_append_of_pos hblanks, hend, List.reverse_reverse]

/-- The character that stands for what follows an element. -/
def AfterValue.symbol : AfterValue → Char
  | comma => ','
  | closing => ')'

theorem reads_readAfterValue {v rest : List Char} (hv : AllBlank v) (opening : Nat)
    (after : AfterValue) :
    Reads (readAfterValue opening) (v ++ [after.symbol]) rest (· = after) := by
  intro offset
  have hblank : isBlank after.symbol = false := by cases after <;> rfl
  have hskip := Cursor.skipBlanks_append hv (after.symbol :: rest) (by simpa using hblank)
    offset
  refine ⟨after, rfl, ?_⟩
  unfold readAfterValue
  rw [List.append_assoc, List.singleton_append, hskip]
  cases after <;> simp [AfterValue.symbol, Nat.add_assoc]

theorem readValue_of_skipBlanks {c next : Cursor} {d : Char} {first : Bool}
    (hskip : c.skipBlanks = next) (hcurrent : next.current? = some d) (hd : d ≠ ')')
    (opening : Nat) :
    readValue opening first c =
      if isQuote d then readQuoted d next
      else (trim <$> takeUntil (fun d => d == ',' || d == ')') false) next := by
  simp [readValue, hskip, hcurrent, hd]

theorem reads_readValue_quoted {x : String} {u w rest : List Char} (h : SpellsQuoted x w)
    (hu : AllBlank u) (hrest : ∀ c ∈ rest.head?, isQuote c = false) (opening : Nat)
    (first : Bool) : Reads (readValue opening first) (u ++ w) rest (· = x) := by
  intro offset
  obtain ⟨quote, hquote⟩ := h
  have hspecial : isBlank quote = false ∧ quote ≠ ')' := by
    rcases isQuote_eq_true_iff.1 hquote with rfl | rfl <;> decide
  have hclosed : rest.head? ≠ some quote := by
    intro hhead
    rw [hrest quote hhead] at hquote
    cases hquote
  have hskip := Cursor.skipBlanks_append hu (quote :: doubled quote x.toList ++ [quote] ++ rest)
    (by simpa using hspecial.1) offset
  have hread := readQuoted_append hclosed x.toList (offset + byteLength u)
  refine ⟨x, rfl, ?_⟩
  rw [List.append_assoc, readValue_of_skipBlanks hskip rfl hspecial.2, if_pos hquote]
  simpa [Nat.add_assoc] using hread

theorem reads_readValue_bare {x : String} {u v rest : List Char} (h : BareElement x.toList)
    (hu : AllBlank u) (hv : AllBlank v) (opening : Nat) (first : Bool) (after : AfterValue) :
    Reads (readValue opening first) (u ++ x.toList ++ v) (after.symbol :: rest) (· = x) := by
  intro offset
  obtain ⟨c, tail, hcons⟩ := List.exists_cons_of_ne_nil h.nonempty
  have hc := h.noSeparator c (by simp [hcons])
  have hquote := h.quotesInside.head c (by simp [hcons])
  have htrimmed := h.trimmed_eq
  rw [hcons] at htrimmed
  have hblank : isBlank c = false := Bool.eq_false_iff.2 fun hblank => by
    simpa [isWhitespace_of_isBlank hblank] using head_of_trimmed_eq htrimmed
  have hskip := Cursor.skipBlanks_append hu (x.toList ++ v ++ after.symbol :: rest)
    (by simpa [hcons] using hblank) offset
  have hinside : ∀ d ∈ x.toList ++ v, (d == ',' || d == ')') = false := by
    intro d hd
    rcases List.mem_append.1 hd with hd | hd
    · simp [h.noSeparator d hd]
    · have hd := hv d hd
      simp only [isBlank, Bool.or_eq_true, beq_iff_eq] at hd
      rcases hd with ((rfl | rfl) | rfl) | rfl <;> rfl
  have hstop : ∀ d ∈ (after.symbol :: rest).head?, (d == ',' || d == ')') = true := by
    cases after <;> simp [AfterValue.symbol]
  have htake := takeUntil_append hinside hstop (offset + byteLength u)
  have htrim : trim (String.ofList (x.toList ++ v)) = x := by
    rw [trim, String.toList_ofList, trimmed_append_blanks h.nonempty h.trimmed_eq hv,
      String.ofList_toList]
  have hcurrent : (⟨x.toList ++ v ++ after.symbol :: rest, offset + byteLength u⟩ :
      Cursor).current? = some c := by
    simp [Cursor.current?, hcons]
  refine ⟨x, rfl, ?_⟩
  rw [List.append_assoc u, List.append_assoc u,
    readValue_of_skipBlanks hskip hcurrent hc.2.2, if_neg (by simp [hquote]), map_ok htake, htrim]
  simp [Nat.add_assoc]

/-- Reads an element of a list of values and the symbol after it. -/
theorem reads_readElement {x : String} {u w v : List Char} (hu : AllBlank u)
    (hw : SpellsElement x w) (hv : AllBlank v) (opening : Nat) (first : Bool)
    (after : AfterValue) (rest : List Char) :
    Reads (readElement opening first) (u ++ w ++ v ++ [after.symbol]) rest (· = (x, after)) := by
  unfold readElement
  cases hw with
  | quoted hw =>
    have hhead : ∀ c ∈ (v ++ [after.symbol] ++ rest).head?, isQuote c = false := by
      intro c hc
      cases v with
      | nil =>
        obtain rfl : after.symbol = c := by simpa using hc
        cases after <;> rfl
      | cons d v =>
        obtain rfl : d = c := by simpa using hc
        exact not_isQuote_of_isDelimiter (isDelimiter_of_isBlank (hv d List.mem_cons_self))
    rw [List.append_assoc]
    refine (reads_readValue_quoted hw hu hhead opening first).bind fun value hvalue => ?_
    refine (reads_readAfterValue hv opening after).bind_still fun next hnext => ?_
    exact Reads.pure (by rw [hvalue, hnext])
  | bare hw =>
    refine (reads_readValue_bare hw hu hv opening first after).bind fun value hvalue => ?_
    refine (reads_readAfterValue allBlank_nil opening after).bind_still fun next hnext => ?_
    exact Reads.pure (by rw [hvalue, hnext])

/-- Reads the inside of a list of values and the closing parenthesis; some values may have been
read before. -/
theorem reads_readElements {xs : List String} {t : List Char} (h : SpellsValues xs t)
    (opening : Nat) (rest : List Char) : ∀ values : List String,
      Reads (readElements opening values) (t ++ [')']) rest (· = values ++ xs) := by
  induction h with
  | last hu hw hv =>
    intro values offset
    obtain ⟨_, rfl, hread⟩ :=
      reads_readElement hu hw hv opening values.isEmpty .closing rest offset
    exact ⟨_, rfl, readElements_closing hread⟩
  | @cons x xs u w v t hu hw hv ht ih =>
    intro values offset
    obtain ⟨_, rfl, hread⟩ :=
      reads_readElement hu hw hv opening values.isEmpty .comma (t ++ [')'] ++ rest) offset
    obtain ⟨all, hall, hmore⟩ := ih (values ++ [x])
      (offset + byteLength (u ++ w ++ v ++ [AfterValue.comma.symbol]))
    refine ⟨all, by simpa using hall, ?_⟩
    have htext : u ++ w ++ v ++ ',' :: t ++ [')'] ++ rest =
        u ++ w ++ v ++ [AfterValue.comma.symbol] ++ (t ++ [')'] ++ rest) := by
      simp [AfterValue.symbol]
    rw [htext, readElements_comma hread]
    refine hmore.trans ?_
    simp [AfterValue.symbol, Nat.add_assoc]

end Eligibility.Scan
