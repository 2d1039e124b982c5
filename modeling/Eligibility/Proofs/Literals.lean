import Mathlib.Data.List.Forall2
import Eligibility.Proofs.Soundness
import Eligibility.Proofs.Trimming

/-!
# Which texts are quoted strings and lists of values

Both are read exactly: from every text of the right form, as the value that it denotes, and from no
other text. A quoted string is a string doubled between two quotes of one kind, up to a quote that
no other one follows (`Scan.readQuoted_iff`). A list of values is a sequence of elements with a
comma between each two, up to a parenthesis that closes (`Scan.readValueList_iff`). An element is a
quoted string among blanks, or a text without comma and closing parenthesis that does not begin with
a quote; the latter denotes its trim.
-/

namespace Eligibility

/-! ## Quoted strings -/

theorem Scan.readQuoted_eq_ok_iff {quote : Char} {tail : List Char} {offset : Nat} {text : String}
    {next : Cursor} :
    readQuoted quote ⟨quote :: tail, offset⟩ = .ok text next ↔
      ∃ rest, tail = doubled quote text.toList ++ quote :: rest ∧ rest.head? ≠ some quote ∧
        next = ⟨rest, offset + byteLength (quote :: doubled quote text.toList ++ [quote])⟩ := by
  constructor
  · intro h
    obtain ⟨inner, rest, rfl, hrest, rfl, rfl⟩ := readQuoted_eq_ok h
    exact ⟨rest, by simp, hrest, by simp⟩
  · rintro ⟨rest, rfl, hrest, rfl⟩
    have hread := readQuoted_append hrest text.toList offset
    simpa using hread

theorem Scan.readQuoted_eq_error_iff {quote : Char} {tail : List Char} {offset : Nat}
    {e : ParseError} {stopped : Cursor} :
    readQuoted quote ⟨quote :: tail, offset⟩ = .error e stopped ↔
      unquote quote tail = none ∧ e = .unmatchedQuote quote offset ∧
        stopped = ⟨[], offset + byteLength (quote :: tail)⟩ := by
  unfold readQuoted
  rw [Cursor.advance_cons]
  cases hinside : unquote quote tail with
  | some p => simp
  | none => simp [Cursor.toEnd, Cursor.advanceTo, eq_comm]

/-- A quoted string is read exactly if the text goes on, behind the opening quote, with a doubled
string and a quote that no other one follows. What is read and what is left are these two parts. In
every other text the opening quote has no match. -/
theorem Scan.readQuoted_iff (quote : Char) (tail : List Char) (offset : Nat) :
    (∀ text next, readQuoted quote ⟨quote :: tail, offset⟩ = .ok text next ↔
      ∃ rest, tail = doubled quote text.toList ++ quote :: rest ∧ rest.head? ≠ some quote ∧
        next = ⟨rest, offset + byteLength (quote :: doubled quote text.toList ++ [quote])⟩) ∧
    (readQuoted quote ⟨quote :: tail, offset⟩ =
        .error (.unmatchedQuote quote offset) ⟨[], offset + byteLength (quote :: tail)⟩ ↔
      ¬ ∃ (text : String) (rest : List Char),
        tail = doubled quote text.toList ++ quote :: rest ∧ rest.head? ≠ some quote) := by
  refine ⟨fun text next => readQuoted_eq_ok_iff, ?_⟩
  rw [readQuoted_eq_error_iff]
  constructor
  · rintro ⟨hnone, -⟩ ⟨text, rest, htail, hrest⟩
    rw [unquote_eq_some.2 ⟨htail, hrest⟩] at hnone
    cases hnone
  · intro hno
    refine ⟨?_, rfl, rfl⟩
    cases hinside : unquote quote tail with
    | none => rfl
    | some p =>
      obtain ⟨htail, hrest⟩ := unquote_eq_some.1 hinside
      exact absurd ⟨String.ofList p.1, p.2, by simpa using htail, hrest⟩ hno

/-! ## Elements of a list of values -/

/-- The texts that stand for a value between two commas of a list. -/
inductive ElementText (value : String) : List Char → Prop where
  /-- Quotes of either kind, with blanks on both sides. -/
  | quoted {u w v : List Char} (hu : AllBlank u) (hw : SpellsQuoted value w) (hv : AllBlank v) :
      ElementText value (u ++ w ++ v)
  /-- As it is, with whitespace on both sides. The value may be empty. -/
  | bare {text : List Char} (htext : ∀ c ∈ text, c ≠ ',' ∧ c ≠ ')')
      (hstart : ∀ c ∈ (text.dropWhile isBlank).head?, isQuote c = false)
      (hvalue : value = trim (String.ofList text)) : ElementText value text

theorem trim_blanks {u : List Char} (hu : AllBlank u) (text : List Char) :
    trim (String.ofList (u ++ text)) = trim (String.ofList text) := by
  rw [trim, trim, String.toList_ofList, String.toList_ofList,
    trimmed_append_left hu.allWhitespace]

theorem ne_separator_of_isBlank {c : Char} (h : isBlank c = true) : c ≠ ',' ∧ c ≠ ')' := by
  constructor
  all_goals rintro rfl; cases h

namespace Scan

/-- Reads an element without quotes: all text up to the symbol after it. -/
theorem reads_readValue_text {u w : List Char} {first : Bool} {after : AfterValue}
    (hu : AllBlank u) (hstart : ∀ c ∈ w.head?, isBlank c = false ∧ isQuote c = false)
    (hw : ∀ c ∈ w, c ≠ ',' ∧ c ≠ ')') (hne : first = true → after = .closing → w ≠ [])
    (opening : Nat) (rest : List Char) :
    Reads (readValue opening first) (u ++ w) (after.symbol :: rest)
      (· = trim (String.ofList w)) := by
  intro offset
  -- the character behind the blanks is the first of the element, or the symbol after it
  obtain ⟨d, hd, hfirst, hblank, hquote⟩ : ∃ d, (w ++ after.symbol :: rest).head? = some d ∧
      (first && d == ')') = false ∧ isBlank d = false ∧ isQuote d = false := by
    cases w with
    | nil =>
      refine ⟨after.symbol, rfl, ?_, by cases after <;> rfl, by cases after <;> rfl⟩
      cases after with
      | comma => simp [AfterValue.symbol]
      | closing => simpa [AfterValue.symbol] using hne
    | cons d w =>
      have hd := hstart d (by simp)
      exact ⟨d, rfl, by simp [hw d], hd.1, hd.2⟩
  have hskip := Cursor.skipBlanks_append hu (w ++ after.symbol :: rest)
    (by simpa [hd] using hblank) offset
  have htake : takeUntil (fun d => d == ',' || d == ')') false
      ⟨w ++ after.symbol :: rest, offset + byteLength u⟩ =
        .ok (String.ofList w) ⟨after.symbol :: rest, offset + byteLength u + byteLength w⟩ :=
    takeUntil_append (by simpa using hw) (by cases after <;> simp [AfterValue.symbol]) _
  have hcurrent : (⟨w ++ after.symbol :: rest, offset + byteLength u⟩ : Cursor).current? = some d :=
    hd
  refine ⟨_, rfl, ?_⟩
  unfold readValue
  rw [List.append_assoc, hskip]
  simp only [hcurrent, hfirst, hquote, Bool.false_eq_true, if_false]
  rw [map_ok htake, byteLength_append, Nat.add_assoc]

/-- Reads an element and the symbol after it. The first element before the closing parenthesis may
not consist of blanks alone. -/
theorem reads_readElement_text {value : String} {text : List Char} (h : ElementText value text)
    {first : Bool} {after : AfterValue}
    (hne : first = true → after = .closing → ¬ AllBlank text) (opening : Nat)
    (rest : List Char) :
    Reads (readElement opening first) (text ++ [after.symbol]) rest (· = (value, after)) := by
  cases h with
  | quoted hu hw hv => exact reads_readElement hu (.quoted hw) hv opening first after rest
  | bare htext hstart hvalue =>
    obtain ⟨hu, hblank⟩ := takeWhile_dropWhile isBlank text
    have hsplit := List.takeWhile_append_dropWhile (p := isBlank) (l := text)
    have hw : ∀ c ∈ text.dropWhile isBlank, c ≠ ',' ∧ c ≠ ')' := fun c hc =>
      htext c ((List.dropWhile_sublist isBlank).mem hc)
    have hempty : first = true → after = .closing → text.dropWhile isBlank ≠ [] := by
      intro hfirst hafter hnil
      exact hne hfirst hafter (List.dropWhile_eq_nil_iff.1 hnil)
    have hread : Reads (readValue opening first) _ (after.symbol :: rest) _ :=
      reads_readValue_text hu (fun c hc => ⟨hblank c hc, hstart c hc⟩) hw hempty opening rest
    rw [hsplit, ← trim_blanks hu, hsplit, ← hvalue] at hread
    unfold readElement
    refine hread.bind fun x hx => ?_
    refine (reads_readAfterValue allBlank_nil opening after).bind_still fun next hnext => ?_
    exact Reads.pure (by rw [hx, hnext])

/-! ## Lists of values -/

theorem intercalate_comma {x : List Char} {xs : List (List Char)} (h : xs ≠ []) :
    [','].intercalate (x :: xs) = x ++ ',' :: [','].intercalate xs := by
  obtain ⟨y, ys, rfl⟩ := List.exists_cons_of_ne_nil h
  rw [List.intercalate_cons_cons]
  simp

/-- Reads the elements of a list and the closing parenthesis; some may have been read before. -/
theorem reads_readElements_text {values : List String} {elements : List (List Char)}
    (h : List.Forall₂ ElementText values elements) (hne : elements ≠ []) (opening : Nat)
    (rest : List Char) : ∀ before : List String,
      (before = [] → ∀ x, elements = [x] → ¬ AllBlank x) →
      Reads (readElements opening before) ([','].intercalate elements ++ [')']) rest
        (· = before ++ values) := by
  induction h with
  | nil => exact absurd rfl hne
  | @cons value x values elements hx htail ih =>
    intro before hblank offset
    by_cases hlast : elements = []
    · subst hlast
      obtain rfl := List.forall₂_nil_right_iff.1 htail
      have hfirst : before.isEmpty = true → AfterValue.closing = .closing → ¬ AllBlank x :=
        fun hbefore _ => hblank (List.isEmpty_iff.1 hbefore) x rfl
      obtain ⟨_, rfl, hread⟩ := reads_readElement_text hx hfirst opening rest offset
      refine ⟨_, rfl, ?_⟩
      rw [List.intercalate_singleton]
      exact readElements_closing hread
    · have hfirst : before.isEmpty = true → AfterValue.comma = .closing → ¬ AllBlank x := by
        intro _ h
        cases h
      obtain ⟨_, rfl, hread⟩ := reads_readElement_text hx hfirst opening
        ([','].intercalate elements ++ [')'] ++ rest) offset
      have hmore : before ++ [value] = [] → ∀ y, elements = [y] → ¬ AllBlank y := by simp
      obtain ⟨_, rfl, hrest⟩ := ih hlast (before ++ [value]) hmore
        (offset + byteLength (x ++ [AfterValue.comma.symbol]))
      refine ⟨_, rfl, ?_⟩
      have htext : [','].intercalate (x :: elements) ++ [')'] ++ rest =
          x ++ [AfterValue.comma.symbol] ++ ([','].intercalate elements ++ [')'] ++ rest) := by
        rw [intercalate_comma hlast]
        simp [AfterValue.symbol]
      rw [htext, readElements_comma hread, hrest, intercalate_comma hlast]
      simp [AfterValue.symbol, Nat.add_assoc]

/-! ## What has been read -/

variable {c next : Cursor} {opening : Nat}

theorem elementText_of_derivesElement {value : String} (after : AfterValue) {s b t : List Char}
    (h : DerivesElement value s b) (hmark : DerivesMark after.symbol b t) :
    ∃ text, ElementText value text ∧ s = text ++ after.symbol :: t := by
  cases h with
  | quoted h =>
    cases h with
    | @mk u _ quote hu hquote _ =>
      cases hmark with
      | mk hv => exact ⟨_, .quoted hu (.mk quote hquote) hv, by simp⟩
  | @bare u w _ hu hstart hw ht =>
    obtain ⟨d, tail, rfl, hd⟩ := ht
    -- the symbol stands right behind an element without quotes
    obtain ⟨rfl, rfl⟩ : d = after.symbol ∧ tail = t := by
      generalize hb : d :: tail = b at hmark
      cases hmark with
      | @mk v _ hv =>
        cases v with
        | nil => exact List.cons.inj hb
        | cons e v =>
          obtain rfl : d = e := (List.cons.inj hb).1
          have hblank := hv d List.mem_cons_self
          rcases hd with rfl | rfl
          all_goals cases hblank
    refine ⟨u ++ w, .bare ?_ ?_ (trim_blanks hu w).symm, rfl⟩
    · intro e he
      rcases List.mem_append.1 he with he | he
      · exact ne_separator_of_isBlank (hu e he)
      · exact hw e he
    · have hblank : ∀ e ∈ w.head?, isBlank e = false := fun e he => (hstart e he).1
      have hdrop : (u ++ w).dropWhile isBlank = w := dropWhile_stretch hu hblank
      rw [hdrop]
      exact fun e he => (hstart e he).2

theorem elementTexts_of_derivesElements {values : List String} {s b t : List Char}
    (h : DerivesElements values s b) (hclose : DerivesMark ')' b t) :
    ∃ elements, elements ≠ [] ∧ List.Forall₂ ElementText values elements ∧
      s = [','].intercalate elements ++ ')' :: t := by
  induction h with
  | last hx =>
    obtain ⟨text, htext, rfl⟩ := elementText_of_derivesElement .closing hx hclose
    refine ⟨[text], by simp, .cons htext .nil, ?_⟩
    rw [List.intercalate_singleton]
    rfl
  | cons hx hcomma _ ih =>
    obtain ⟨elements, hne, helements, rfl⟩ := ih hclose
    obtain ⟨text, htext, rfl⟩ := elementText_of_derivesElement .comma hx hcomma
    refine ⟨text :: elements, by simp, .cons htext helements, ?_⟩
    rw [intercalate_comma hne]
    simp [AfterValue.symbol]

/-- What stands behind the opening parenthesis of a list that is read. -/
theorem elementTexts_of_readElements {values : List String}
    (h : readElements opening [] c = .ok values next) :
    ∃ elements, elements ≠ [] ∧ List.Forall₂ ElementText values elements ∧
      (∀ x, elements = [x] → ¬ AllBlank x) ∧
      c.rest = [','].intercalate elements ++ ')' :: next.rest := by
  obtain ⟨more, b, hmore, hvalues, hclose⟩ := derivesElements_of_readElements h
  obtain rfl : values = more := hmore
  obtain ⟨elements, hne, helements, hrest⟩ := elementTexts_of_derivesElements hvalues hclose
  refine ⟨elements, hne, helements, ?_, hrest⟩
  rintro x rfl hx
  rw [List.intercalate_singleton] at hrest
  exact not_derivesMark_of_readElements h next.rest (hrest ▸ .mk hx)

/-- A list that closes behind blanks, before a value has been read. -/
theorem readElements_empty {blanks : List Char} (hblanks : AllBlank blanks) (rest : List Char)
    (opening offset : Nat) :
    readElements opening [] ⟨blanks ++ ')' :: rest, offset⟩ =
      .error (.emptyValueList opening) ⟨')' :: rest, offset + byteLength blanks⟩ := by
  have hskip := Cursor.skipBlanks_append hblanks (')' :: rest) (by simp [isBlank]) offset
  refine readElements_error (bind_error ?_)
  unfold readValue
  simp [hskip]

theorem current?_of_readValue_empty {first : Bool} {offset : Nat} {stopped : Cursor}
    (h : readValue opening first c = .error (.emptyValueList offset) stopped) :
    first = true ∧ offset = opening ∧ c.skipBlanks.current? = some ')' := by
  unfold readValue at h
  dsimp only at h
  split at h
  · cases h
  · rename_i d hd
    split at h
    · rename_i hclosing
      cases h
      rw [Bool.and_eq_true, beq_iff_eq] at hclosing
      exact ⟨hclosing.1, rfl, hclosing.2 ▸ hd⟩
    · split at h
      · unfold readQuoted at h
        split at h <;> cases h
      · rw [map_eq_error] at h
        simp [takeUntil] at h

/-- A list is found empty only where no value has been read, and a parenthesis closes. -/
theorem current?_of_readElements_empty {before : List String} {offset : Nat} {stopped : Cursor}
    (h : readElements opening before c = .error (.emptyValueList offset) stopped) :
    before = [] ∧ offset = opening ∧ c.skipBlanks.current? = some ')' := by
  fun_induction readElements opening before c with
  | case1 before c e stopped' hread =>
    cases h
    unfold readElement at hread
    rcases bind_eq_error.1 hread with hvalue | ⟨value, mid, -, hafter⟩
    · obtain ⟨hfirst, hoffset, hclosing⟩ := current?_of_readValue_empty hvalue
      exact ⟨List.isEmpty_iff.1 hfirst, hoffset, hclosing⟩
    · rcases bind_eq_error.1 hafter with hafter | ⟨_, _, -, hpure⟩
      · unfold readAfterValue at hafter
        dsimp only at hafter
        split at hafter
        · cases hafter
        · split at hafter
          · cases hafter
          · split at hafter <;> cases hafter
      · cases hpure
  | case2 => cases h
  | case3 before c value next _ ih =>
    obtain ⟨hempty, -⟩ := ih h
    simp at hempty

/-! ## The whole list -/

theorem readValueList_opening (tail : List Char) (offset : Nat) :
    readValueList ⟨'(' :: tail, offset⟩ = readElements offset [] ⟨tail, offset + '('.utf8Size⟩ :=
  rfl

theorem readValueList_of_elementTexts {values : List String} {elements : List (List Char)}
    (hne : elements ≠ []) (helements : List.Forall₂ ElementText values elements)
    (hblank : ∀ x, elements = [x] → ¬ AllBlank x) (rest : List Char) (offset : Nat) :
    readValueList ⟨'(' :: ([','].intercalate elements ++ ')' :: rest), offset⟩ =
      .ok values ⟨rest, offset + byteLength ('(' :: [','].intercalate elements ++ [')'])⟩ := by
  obtain ⟨_, rfl, hread⟩ := reads_readElements_text helements hne offset rest []
    (fun _ => hblank) (offset + '('.utf8Size)
  rw [readValueList_opening]
  simpa [Nat.add_assoc] using hread

theorem readValueList_eq_ok_iff {tail : List Char} {values : List String} :
    readValueList ⟨'(' :: tail, opening⟩ = .ok values next ↔
      ∃ elements rest, elements ≠ [] ∧ List.Forall₂ ElementText values elements ∧
        (∀ x, elements = [x] → ¬ AllBlank x) ∧
        tail = [','].intercalate elements ++ ')' :: rest ∧
        next = ⟨rest, opening + byteLength ('(' :: [','].intercalate elements ++ [')'])⟩ := by
  constructor
  · intro h
    obtain ⟨elements, hne, helements, hblank, htail⟩ := elementTexts_of_readElements h
    obtain rfl : tail = [','].intercalate elements ++ ')' :: next.rest := htail
    rw [readValueList_of_elementTexts hne helements hblank, EStateM.Result.ok.injEq] at h
    exact ⟨elements, next.rest, hne, helements, hblank, rfl, h.2.symm⟩
  · rintro ⟨elements, rest, hne, helements, hblank, rfl, rfl⟩
    exact readValueList_of_elementTexts hne helements hblank rest opening

theorem readValueList_empty_iff {tail : List Char} {offset : Nat} :
    (∃ stopped, readValueList ⟨'(' :: tail, offset⟩ = .error (.emptyValueList opening) stopped) ↔
      opening = offset ∧ ∃ blanks rest, AllBlank blanks ∧ tail = blanks ++ ')' :: rest := by
  constructor
  · rintro ⟨stopped, h⟩
    rw [readValueList_opening] at h
    obtain ⟨-, hopening, hclosing⟩ := current?_of_readElements_empty h
    obtain ⟨u, hu, hrest⟩ := Cursor.exists_blanks ⟨tail, offset + '('.utf8Size⟩
    rw [Cursor.rest_eq_cons hclosing] at hrest
    exact ⟨hopening, u, _, hu, hrest⟩
  · rintro ⟨rfl, blanks, rest, hblanks, rfl⟩
    exact ⟨_, readElements_empty hblanks rest opening (opening + '('.utf8Size)⟩

/-- A list of values is read exactly if, behind the opening parenthesis, elements follow with a
comma between each two, up to a parenthesis that closes; what is read are the values for which the
elements stand, and the text behind the parenthesis is left. An element that stands alone must not
consist of blanks, and if it does, this is the error of a list without values. -/
theorem readValueList_iff (tail : List Char) (offset : Nat) :
    (∀ values next, readValueList ⟨'(' :: tail, offset⟩ = .ok values next ↔
      ∃ elements rest, elements ≠ [] ∧ List.Forall₂ ElementText values elements ∧
        (∀ x, elements = [x] → ¬ AllBlank x) ∧
        tail = [','].intercalate elements ++ ')' :: rest ∧
        next = ⟨rest, offset + byteLength ('(' :: [','].intercalate elements ++ [')'])⟩) ∧
    (∀ opening, (∃ stopped, readValueList ⟨'(' :: tail, offset⟩ =
        .error (.emptyValueList opening) stopped) ↔
      opening = offset ∧ ∃ blanks rest, AllBlank blanks ∧ tail = blanks ++ ')' :: rest) :=
  ⟨fun _ _ => readValueList_eq_ok_iff, fun _ => readValueList_empty_iff⟩

end Scan

end Eligibility
