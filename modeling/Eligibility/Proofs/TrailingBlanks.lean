import Eligibility.Proofs.Soundness

/-!
# Blanks at the end of a text

Blanks that are put at the end of a text make no difference to its reading: every scan gives the
same result with them and without, or fails with them and without (`Scan.Indifferent`), and so does
the reading of a level (`Level.parse_moved_blanks`). Only the errors may differ where a scan fails,
because the end of the text is somewhere else.
-/

namespace Eligibility

variable {blanks : List Char}

/-! ## Cursors before blanks -/

theorem AllBlank.head?_ne {quote : Char} (h : AllBlank blanks) (hquote : isQuote quote = true) :
    blanks.head? ≠ some quote :=
  h.endsToken.head?_ne hquote

namespace Cursor

variable {c : Cursor}

theorem isAtEnd_eq (c : Cursor) : c.isAtEnd = c.current?.isNone := by
  obtain ⟨rest, offset⟩ := c
  cases rest <;> rfl

theorem skipBlanks_moved_blanks {d : Char} (h : c.skipBlanks.current? = some d) :
    (c.moved 0 blanks).skipBlanks = c.skipBlanks.moved 0 blanks := by
  obtain ⟨u, hu, hrest⟩ := c.exists_blanks
  obtain ⟨rest, offset⟩ := c
  have hhead : ∀ e ∈ (⟨rest, offset⟩ : Cursor).skipBlanks.rest.head?, isBlank e = false :=
    fun e he => isBlank_of_skipBlanks he
  have hskip := skipBlanks_append hu _ hhead offset
  have hhead' : ∀ e ∈ ((⟨rest, offset⟩ : Cursor).skipBlanks.rest ++ blanks).head?,
      isBlank e = false := by
    rw [List.head?_append, show (⟨rest, offset⟩ : Cursor).skipBlanks.rest.head? = some d from h]
    exact fun e he => hhead e (h.trans he)
  have hskip' := skipBlanks_append hu _ hhead' offset
  rw [← List.append_assoc] at hskip'
  simp only at hrest
  rw [← hrest] at hskip hskip'
  rw [hskip]
  exact hskip'

theorem current?_skipBlanks_moved_blanks (hblanks : AllBlank blanks)
    (h : c.skipBlanks.current? = none) : (c.moved 0 blanks).skipBlanks.current? = none := by
  obtain ⟨u, hu, hrest⟩ := c.exists_blanks
  have hnil : c.skipBlanks.rest = [] := List.head?_eq_none_iff.1 h
  rw [hnil, List.append_nil] at hrest
  have hall : AllBlank (u ++ blanks) := fun d hd => (List.mem_append.1 hd).elim (hu d) (hblanks d)
  have hskip := skipBlanks_append hall [] (by simp) c.offset
  rw [List.append_nil] at hskip
  rw [moved, hrest, Nat.add_zero, hskip]
  rfl

theorem current?_moved_blanks_ne (hblanks : AllBlank blanks) (h : c.current? ≠ some '(') :
    (c.moved 0 blanks).current? ≠ some '(' := by
  obtain ⟨rest, offset⟩ := c
  cases rest with
  | nil =>
    intro hopen
    have hmem : '(' ∈ blanks := List.mem_of_mem_head? hopen
    cases hblanks '(' hmem
  | cons d rest => simpa [moved] using h

end Cursor

/-- A closing quote is not found among blanks. -/
theorem unquote_append_blanks (hblanks : AllBlank blanks) {quote : Char}
    (hquote : isQuote quote = true) {text : List Char} (h : unquote quote text = none) :
    unquote quote (text ++ blanks) = none := by
  cases hread : unquote quote (text ++ blanks) with
  | none => rfl
  | some p =>
    obtain ⟨hsplit, hrest⟩ := unquote_eq_some.1 hread
    have hnot : quote ∉ blanks := by
      intro hmem
      rw [not_isQuote_of_isDelimiter (isDelimiter_of_isBlank (hblanks quote hmem))] at hquote
      cases hquote
    -- the closing quote stands in the text, so it is found there
    obtain ⟨after, htext, hafter⟩ : ∃ after, text = doubled quote p.1 ++ quote :: after ∧
        p.2 = after ++ blanks := by
      rcases List.append_eq_append_iff.1 hsplit with ⟨m, -, hm⟩ | ⟨m, htext, hm⟩
      · exact absurd (by simp [hm]) hnot
      · cases m with
        | nil =>
          have hblank : quote :: p.2 = blanks := hm
          exact absurd (hblank ▸ List.mem_cons_self) hnot
        | cons d m =>
          obtain ⟨rfl, hafter⟩ := List.cons.inj hm
          exact ⟨m, htext, hafter⟩
    have hfound : unquote quote text = some (p.1, after) := by
      refine unquote_eq_some.2 ⟨htext, ?_⟩
      cases after with
      | nil => simp
      | cons d after => simpa [hafter] using hrest
    rw [h] at hfound
    cases hfound

namespace Scan

variable {α β : Type}

/-! ## Scans before blanks -/

/-- The outcomes of a scan in a text and in the text with blanks at its end: the same result, with
the blanks left behind what is left, or a failure in both. -/
def Alike (blanks : List Char) : (r r' : EStateM.Result ParseError Cursor α) → Prop
  | .ok a next, r' => r' = .ok a (next.moved 0 blanks)
  | .error _ _, r' => ∃ e stopped, r' = .error e stopped

/-- A scan to which blanks at the end of the text make no difference. -/
def Indifferent (blanks : List Char) (x : Scan α) : Prop :=
  ∀ c, Alike blanks (x c) (x (c.moved 0 blanks))

theorem Alike.bind {x : Scan α} {f : α → Scan β} {c c' : Cursor}
    (hx : Alike blanks (x c) (x c'))
    (hf : ∀ a next, x c = .ok a next → Alike blanks (f a next) (f a (next.moved 0 blanks))) :
    Alike blanks ((x >>= f) c) ((x >>= f) c') := by
  cases hxc : x c with
  | ok a next =>
    rw [hxc] at hx
    rw [bind_ok hxc, bind_ok hx]
    exact hf a next hxc
  | error e next =>
    rw [hxc] at hx
    obtain ⟨e', stopped, hx⟩ := hx
    rw [bind_error hxc]
    exact ⟨e', stopped, bind_error hx⟩

theorem Alike.map {x : Scan α} {c c' : Cursor} (hx : Alike blanks (x c) (x c')) (f : α → β) :
    Alike blanks ((f <$> x) c) ((f <$> x) c') := by
  cases hxc : x c with
  | ok a next =>
    rw [hxc] at hx
    rw [map_ok hxc]
    exact map_ok hx
  | error e next =>
    rw [hxc] at hx
    obtain ⟨e', stopped, hx⟩ := hx
    rw [map_error hxc]
    exact ⟨e', stopped, map_error hx⟩

namespace Indifferent

variable {x : Scan α}

theorem bind {f : α → Scan β} (hx : Indifferent blanks x) (hf : ∀ a, Indifferent blanks (f a)) :
    Indifferent blanks (x >>= f) := fun c => (hx c).bind fun a next _ => hf a next

theorem map (hx : Indifferent blanks x) (f : α → β) : Indifferent blanks (f <$> x) :=
  fun c => (hx c).map f

theorem pure (a : α) : Indifferent blanks (pure a) := fun _ => rfl

theorem throw (e : ParseError) : Indifferent blanks (throw e : Scan α) := fun _ => ⟨e, _, rfl⟩

end Indifferent

theorem exists_unexpected (c : Cursor) :
    ∃ e stopped, (unexpected : Scan α) c = .error e stopped := by
  unfold unexpected
  split <;> exact ⟨_, _, rfl⟩

theorem alike_unexpected {c c' : Cursor} :
    Alike blanks ((unexpected : Scan α) c) (unexpected c') := by
  obtain ⟨e, stopped, h⟩ := exists_unexpected (α := α) c
  rw [h]
  exact exists_unexpected c'

/-! ## Tokens -/

theorem indifferent_skipSpace (hblanks : AllBlank blanks) : Indifferent blanks skipSpace := by
  intro c
  unfold skipSpace
  simp only [Cursor.isAtEnd_eq]
  cases hc : c.skipBlanks.current? with
  | none =>
    rw [Cursor.current?_skipBlanks_moved_blanks hblanks hc]
    exact ⟨_, _, rfl⟩
  | some d =>
    rw [Cursor.skipBlanks_moved_blanks hc, Cursor.current?_moved hc]
    rfl

theorem indifferent_takeUntil (hblanks : AllBlank blanks) :
    Indifferent blanks (takeUntil isDelimiter false) := by
  have hhead : ∀ d ∈ blanks.head?, (!isDelimiter d) = false := by
    intro d hd
    rw [hblanks.endsToken d hd]
    rfl
  intro c
  unfold takeUntil
  rw [Cursor.skipWhile_moved hhead]
  simp [Alike, Cursor.moved, takeWhile_append_of_head hhead]

theorem alike_readQuoted (hblanks : AllBlank blanks) {quote : Char} {c : Cursor}
    (hquote : isQuote quote = true) (hc : c.current? = some quote) :
    Alike blanks (readQuoted quote c) (readQuoted quote (c.moved 0 blanks)) := by
  unfold readQuoted
  rw [Cursor.advance_moved hc]
  cases hinside : unquote quote c.advance.rest with
  | some p =>
    obtain ⟨inner, rest⟩ := p
    simp only [Cursor.moved_rest, unquote_append hinside (hblanks.head?_ne hquote),
      Cursor.advanceTo_moved]
    rfl
  | none =>
    simp only [Cursor.moved_rest, unquote_append_blanks hblanks hquote hinside]
    exact ⟨_, _, rfl⟩

theorem indifferent_readToken (hblanks : AllBlank blanks) : Indifferent blanks readToken := by
  intro c
  refine (indifferent_skipSpace hblanks c).bind fun _ start hstart => ?_
  obtain ⟨d, hd⟩ := exists_current?_of_skipSpace hstart
  rw [bind_get, bind_get, hd, Cursor.current?_moved hd]
  cases hquote : isQuote d with
  | true =>
    simp only [Option.filter_some, hquote, if_true]
    exact (alike_readQuoted hblanks hquote hd).bind fun _ _ _ => rfl
  | false =>
    simp only [Option.filter_some, hquote, Bool.false_eq_true, if_false]
    exact (indifferent_takeUntil hblanks start).bind fun _ _ _ => rfl

theorem indifferent_readWord (hblanks : AllBlank blanks) : Indifferent blanks readWord := by
  refine (indifferent_readToken hblanks).bind fun token => ?_
  split
  · exact fun c => alike_unexpected
  · exact .pure token

/-! ## Lists of values -/

/-- Two outcomes of which both have come to the end of the text. -/
def BothAtEnd : (r r' : EStateM.Result ParseError Cursor α) → Prop
  | .ok _ next, .ok _ next' => next.rest = [] ∧ next'.rest = []
  | _, _ => False

theorem BothAtEnd.map {x : Scan α} {c c' : Cursor} (hx : BothAtEnd (x c) (x c')) (f : α → β) :
    BothAtEnd ((f <$> x) c) ((f <$> x) c') := by
  cases hxc : x c with
  | error e next => simp [hxc, BothAtEnd] at hx
  | ok a next =>
    cases hxc' : x c' with
    | error e next' => simp [hxc, hxc', BothAtEnd] at hx
    | ok a' next' =>
      rw [hxc, hxc'] at hx
      rw [map_ok hxc, map_ok hxc']
      exact hx

theorem takeUntil_end {stop : Char → Bool} {text : List Char} (h : ∀ d ∈ text, stop d = false)
    (offset : Nat) : takeUntil stop false ⟨text, offset⟩ =
      .ok (String.ofList text) ⟨[], offset + byteLength text⟩ := by
  simpa using takeUntil_append h (by simp : ∀ d ∈ ([] : List Char).head?, stop d = true) offset

/-- What is taken up to a character that is no blank ends there, or goes on into the blanks. -/
theorem takeUntil_alike_or (hblanks : AllBlank blanks) {stop : Char → Bool}
    (hstop : ∀ d, isBlank d = true → stop d = false) (c : Cursor) :
    Alike blanks (takeUntil stop false c) (takeUntil stop false (c.moved 0 blanks)) ∨
      BothAtEnd (takeUntil stop false c) (takeUntil stop false (c.moved 0 blanks)) := by
  obtain ⟨rest, offset⟩ := c
  obtain ⟨hinside, hhead⟩ := takeWhile_dropWhile (!stop ·) rest
  have hplain : ∀ d ∈ rest.takeWhile (!stop ·), stop d = false := by simpa using hinside
  have hsplit := List.takeWhile_append_dropWhile (p := (!stop ·)) (l := rest)
  generalize rest.takeWhile (!stop ·) = w at hplain hsplit
  generalize rest.dropWhile (!stop ·) = after at hhead hsplit
  subst hsplit
  cases after with
  | nil =>
    have hblank : ∀ d ∈ w ++ blanks, stop d = false := fun d hd =>
      (List.mem_append.1 hd).elim (hplain d) fun hd => hstop d (hblanks d hd)
    refine .inr ?_
    simp only [Cursor.moved, List.append_nil, Nat.add_zero, takeUntil_end hplain,
      takeUntil_end hblank]
    exact ⟨rfl, rfl⟩
  | cons d after =>
    have hd : stop d = true := by simpa using hhead
    have htake (rest : List Char) : takeUntil stop false ⟨w ++ d :: rest, offset⟩ =
        .ok (String.ofList w) ⟨d :: rest, offset + byteLength w⟩ :=
      takeUntil_append hplain (by simpa using hd) offset
    refine .inl ?_
    rw [htake after]
    simpa [Alike, Cursor.moved] using htake (after ++ blanks)

theorem readValue_alike_or (hblanks : AllBlank blanks) (opening : Nat) (first : Bool)
    (c : Cursor) :
    Alike blanks (readValue opening first c) (readValue opening first (c.moved 0 blanks)) ∨
      BothAtEnd (readValue opening first c) (readValue opening first (c.moved 0 blanks)) := by
  unfold readValue
  dsimp only
  cases hc : c.skipBlanks.current? with
  | none =>
    rw [Cursor.current?_skipBlanks_moved_blanks hblanks hc]
    exact .inl ⟨_, _, rfl⟩
  | some d =>
    rw [Cursor.skipBlanks_moved_blanks hc, Cursor.current?_moved hc]
    dsimp only
    split
    · exact .inl ⟨_, _, rfl⟩
    · split
      · rename_i hquote
        exact .inl (alike_readQuoted hblanks hquote hc)
      · have hstop : ∀ d, isBlank d = true → (d == ',' || d == ')') = false := by
          intro d hd
          simp only [isBlank, Bool.or_eq_true, beq_iff_eq] at hd
          rcases hd with ((rfl | rfl) | rfl) | rfl
          all_goals rfl
        rcases takeUntil_alike_or hblanks hstop c.skipBlanks with halike | hend
        · exact .inl (halike.map trim)
        · exact .inr (hend.map trim)

theorem readAfterValue_atEnd (opening : Nat) {c : Cursor} (h : c.rest = []) :
    ∃ e stopped, readAfterValue opening c = .error e stopped := by
  obtain ⟨rest, offset⟩ := c
  obtain rfl : rest = [] := h
  exact ⟨_, _, rfl⟩

theorem indifferent_readAfterValue (hblanks : AllBlank blanks) (opening : Nat) :
    Indifferent blanks (readAfterValue opening) := by
  intro c
  unfold readAfterValue
  dsimp only
  cases hc : c.skipBlanks.current? with
  | none =>
    rw [Cursor.current?_skipBlanks_moved_blanks hblanks hc]
    exact ⟨_, _, rfl⟩
  | some d =>
    rw [Cursor.skipBlanks_moved_blanks hc, Cursor.current?_moved hc, Cursor.advance_moved hc]
    dsimp only
    split
    · rfl
    · split
      · rfl
      · exact ⟨_, _, rfl⟩

/-- An element without quotes may take the blanks in, but then its list is not closed. -/
theorem indifferent_readElement (hblanks : AllBlank blanks) (opening : Nat) (first : Bool) :
    Indifferent blanks (readElement opening first) := by
  intro c
  unfold readElement
  rcases readValue_alike_or hblanks opening first c with halike | hend
  · exact halike.bind fun value next _ =>
      (indifferent_readAfterValue hblanks opening next).bind fun _ _ _ => rfl
  · cases hread : readValue opening first c with
    | error e stopped => simp [hread, BothAtEnd] at hend
    | ok value next =>
      cases hread' : readValue opening first (c.moved 0 blanks) with
      | error e stopped => simp [hread, hread', BothAtEnd] at hend
      | ok value' next' =>
        rw [hread, hread'] at hend
        obtain ⟨e, stopped, hafter⟩ := readAfterValue_atEnd opening hend.1
        obtain ⟨e', stopped', hafter'⟩ := readAfterValue_atEnd opening hend.2
        rw [bind_ok hread, bind_ok hread', bind_error hafter]
        exact ⟨e', stopped', bind_error hafter'⟩

theorem indifferent_readElements (hblanks : AllBlank blanks) (opening : Nat)
    (values : List String) : Indifferent blanks (readElements opening values) := by
  intro c
  have hstep := indifferent_readElement hblanks opening
  fun_induction readElements opening values c with
  | case1 values c e stopped hread =>
    have hmoved := hstep values.isEmpty c
    rw [hread] at hmoved
    obtain ⟨e', stopped', hmoved⟩ := hmoved
    exact ⟨e', stopped', readElements_error hmoved⟩
  | case2 values c value next hread =>
    have hmoved := hstep values.isEmpty c
    rw [hread] at hmoved
    exact readElements_closing hmoved
  | case3 values c value next hread ih =>
    have hmoved := hstep values.isEmpty c
    rw [hread] at hmoved
    rw [readElements_comma hmoved]
    exact ih

theorem alike_readValueList (hblanks : AllBlank blanks) {c : Cursor} (hc : c.current? = some '(') :
    Alike blanks (readValueList c) (readValueList (c.moved 0 blanks)) := by
  unfold readValueList
  rw [Cursor.advance_moved hc]
  exact indifferent_readElements hblanks c.offset [] c.advance

/-! ## Comparisons -/

theorem indifferent_expectDot (hblanks : AllBlank blanks) (after : String) :
    Indifferent blanks (expectDot after) := by
  intro c
  unfold expectDot
  dsimp only
  cases hc : c.skipBlanks.current? with
  | none =>
    rw [Cursor.current?_skipBlanks_moved_blanks hblanks hc]
    exact ⟨_, _, rfl⟩
  | some d =>
    rw [Cursor.skipBlanks_moved_blanks hc, Cursor.current?_moved hc, Cursor.advance_moved hc]
    split
    · rfl
    · exact ⟨_, _, rfl⟩

theorem indifferent_readAttribute (hblanks : AllBlank blanks) (first : Token) :
    Indifferent blanks (readAttribute first) := by
  refine (indifferent_expectDot hblanks first.text).bind fun _ => ?_
  split
  · exact (indifferent_readWord hblanks).bind fun _ => .pure _
  · refine (indifferent_readWord hblanks).bind fun kind => ?_
    refine (indifferent_expectDot hblanks kind.text).bind fun _ => ?_
    cases scopeOfKind first.text kind with
    | error e => exact .throw e
    | ok scope => exact (indifferent_readWord hblanks).bind fun property => .pure _

theorem indifferent_readOperator (hblanks : AllBlank blanks) : Indifferent blanks readOperator := by
  refine (indifferent_readWord hblanks).bind fun token => ?_
  split
  · exact .pure _
  · exact .throw _

theorem indifferent_readLiteral (hblanks : AllBlank blanks) : Indifferent blanks readLiteral := by
  refine (indifferent_readToken hblanks).bind fun token => ?_
  split
  · intro c
    rw [bind_get, bind_get]
    by_cases hc : c.current? = some '('
    · rw [if_pos hc, if_pos (Cursor.current?_moved hc)]
      exact (alike_readValueList hblanks hc).map _
    · rw [if_neg hc, if_neg (Cursor.current?_moved_blanks_ne hblanks hc)]
      exact alike_unexpected
  · exact .pure _

theorem indifferent_readComparison (hblanks : AllBlank blanks) (first : Token) :
    Indifferent blanks (readComparison first) := by
  refine (indifferent_readAttribute hblanks first).bind fun subject => ?_
  refine (indifferent_readOperator hblanks).bind fun operator => ?_
  exact (indifferent_readLiteral hblanks).bind fun value => .pure _

/-! ## Operands and connectives -/

/-- The parenthesis that closes a group is not among the blanks. -/
theorem indifferent_readGroup (hblanks : AllBlank blanks) : Indifferent blanks readGroup := by
  rintro ⟨rest, offset⟩
  cases hread : readGroup ⟨rest, offset⟩ with
  | ok inside next =>
    obtain ⟨text, after, rfl, hnested, rfl, rfl⟩ := readGroup_eq_ok.1 hread
    have hread' := readGroup_append hnested (after ++ blanks) offset
    simpa [Alike, Cursor.moved] using hread'
  | error e stopped =>
    cases hread' : readGroup (Cursor.moved 0 blanks ⟨rest, offset⟩) with
    | error e' stopped' => exact ⟨e', stopped', rfl⟩
    | ok inside next =>
      obtain ⟨text, after, hsplit, hnested, -, -⟩ := readGroup_eq_ok.1 hread'
      have hnot : ')' ∉ blanks := fun hmem => by cases hblanks ')' hmem
      rcases List.append_eq_append_iff.1 hsplit with ⟨m, -, hm⟩ | ⟨m, hrest, hm⟩
      · exact absurd (by simp [hm]) hnot
      · cases m with
        | nil =>
          have hblank : ')' :: after = blanks := hm
          exact absurd (hblank ▸ List.mem_cons_self) hnot
        | cons d m =>
          obtain ⟨rfl, -⟩ := List.cons.inj hm
          simp only at hrest
          rw [hrest, readGroup_append hnested m offset] at hread
          cases hread

theorem indifferent_readComparisonOperand (hblanks : AllBlank blanks) :
    Indifferent blanks readComparisonOperand := by
  refine (indifferent_readToken hblanks).bind fun token => ?_
  split
  · exact fun c => alike_unexpected
  · exact (indifferent_readComparison hblanks token).map _

theorem indifferent_readConnective (hblanks : AllBlank blanks) :
    Indifferent blanks readConnective := by
  refine (indifferent_readToken hblanks).bind fun token => ?_
  split
  · exact .pure _
  · exact .throw _

theorem indifferent_readOperand (hblanks : AllBlank blanks) : Indifferent blanks readOperand := by
  intro c
  unfold readOperand
  by_cases hc : c.current? = some '('
  · rw [if_pos hc, if_pos (Cursor.current?_moved hc), Cursor.advance_moved hc]
    exact (indifferent_readGroup hblanks c.advance).map _
  · rw [if_neg hc, if_neg (Cursor.current?_moved_blanks_ne hblanks hc)]
    exact indifferent_readComparisonOperand hblanks c

end Scan

namespace Level

variable {level : Level} {c : Cursor}

/-! ## Levels before blanks -/

section Steps

variable (hend : ¬ c.skipBlanks.isAtEnd = true)

include hend

theorem skipBlanks_moved_of_not_isAtEnd :
    (c.moved 0 blanks).skipBlanks = c.skipBlanks.moved 0 blanks := by
  cases hc : c.skipBlanks.current? with
  | none => simp [Cursor.isAtEnd_eq, hc] at hend
  | some d => exact Cursor.skipBlanks_moved_blanks hc

theorem isAtEnd_moved_blanks : (c.moved 0 blanks).skipBlanks.isAtEnd = false := by
  rw [skipBlanks_moved_of_not_isAtEnd hend]
  exact Cursor.isAtEnd_moved (Bool.eq_false_iff.2 hend)

theorem alike_readOperand (hblanks : AllBlank blanks) :
    Scan.Alike blanks (Scan.readOperand c.skipBlanks)
      (Scan.readOperand (c.moved 0 blanks).skipBlanks) := by
  rw [skipBlanks_moved_of_not_isAtEnd hend]
  exact Scan.indifferent_readOperand hblanks c.skipBlanks

theorem alike_readConnective (hblanks : AllBlank blanks) :
    Scan.Alike blanks (Scan.readConnective c.skipBlanks)
      (Scan.readConnective (c.moved 0 blanks).skipBlanks) := by
  rw [skipBlanks_moved_of_not_isAtEnd hend]
  exact Scan.indifferent_readConnective hblanks c.skipBlanks

end Steps

/-- Where a level ends matters to the error only. -/
theorem finish_eq_ok_iff (level : Level) (offset offset' : Nat) (e : Expression) :
    level.finish offset = .ok e ↔ level.finish offset' = .ok e := by
  unfold finish
  split
  · simp
  · split
    · simp
    · split <;> simp

/-- A level is read the same way if blanks are put at the end of the text. -/
theorem parse_moved_blanks (hblanks : AllBlank blanks) (level : Level) (c : Cursor)
    (e : Expression) : level.parse (c.moved 0 blanks) = .ok e ↔ level.parse c = .ok e := by
  fun_induction parse level c with
  | case1 level c hend =>
    have hnone : c.skipBlanks.current? = none := by
      simpa [Cursor.isAtEnd_eq] using hend
    have hend' : (c.moved 0 blanks).skipBlanks.isAtEnd = true := by
      rw [Cursor.isAtEnd_eq, Cursor.current?_skipBlanks_moved_blanks hblanks hnone]
      rfl
    rw [parse_of_atEnd hend']
    exact finish_eq_ok_iff level _ _ e
  | case2 level c hend hexpecting error stopped hread =>
    have hread' := alike_readOperand hend hblanks
    rw [hread] at hread'
    obtain ⟨error', stopped', hread'⟩ := hread'
    simp [parse_of_operand_error hexpecting (isAtEnd_moved_blanks hend) hread']
  | case3 level c hend hexpecting x next hread ih =>
    have hread' := alike_readOperand hend hblanks
    rw [hread] at hread'
    rw [parse_of_comparison hexpecting (isAtEnd_moved_blanks hend) hread']
    exact ih
  | case4 level c hend hexpecting inside next hread error hinside =>
    have hread' := alike_readOperand hend hblanks
    rw [hread] at hread'
    simp [parse_of_group_error hexpecting (isAtEnd_moved_blanks hend) hread' hinside]
  | case5 level c hend hexpecting inside next hread operand hinside _ ih =>
    have hread' := alike_readOperand hend hblanks
    rw [hread] at hread'
    rw [parse_of_group hexpecting (isAtEnd_moved_blanks hend) hread' hinside]
    exact ih
  | case6 level c hend hexpecting error stopped hread =>
    have hread' := alike_readConnective hend hblanks
    rw [hread] at hread'
    obtain ⟨error', stopped', hread'⟩ := hread'
    simp [parse_of_connective_error (Bool.eq_false_iff.2 hexpecting) (isAtEnd_moved_blanks hend)
      hread']
  | case7 level c hend hexpecting op token next hread error hjoin =>
    have hread' := alike_readConnective hend hblanks
    rw [hread] at hread'
    simp [parse_of_join_error (Bool.eq_false_iff.2 hexpecting) (isAtEnd_moved_blanks hend) hread'
      hjoin]
  | case8 level c hend hexpecting op token next hread joined hjoin ih =>
    have hread' := alike_readConnective hend hblanks
    rw [hread] at hread'
    rw [parse_of_connective (Bool.eq_false_iff.2 hexpecting) (isAtEnd_moved_blanks hend) hread'
      hjoin]
    exact ih

end Level

end Eligibility
