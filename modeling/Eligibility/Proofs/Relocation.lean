import Eligibility.Expression.Parser
import Eligibility.Proofs.Nesting
import Eligibility.Proofs.Stretches

/-!
# Scans in a moved text

A group is read apart from the text it is cut from, at another offset and without what follows it.
Here it is shown for every scan that this makes no difference: in a text that stands some bytes
further on, a scan gives the same result with all offsets increased by that number. What follows the
text does not matter to a scan that succeeds, if it is nothing or begins with a parenthesis that
closes.
-/

namespace Eligibility

/-! ## Moved places -/

/-- The same place in a text that stands `k` bytes further on and goes on with `tail`. -/
def Cursor.moved (k : Nat) (tail : List Char) (c : Cursor) : Cursor :=
  ⟨c.rest ++ tail, c.offset + k⟩

/-- The same error in a text that stands `k` bytes further on. -/
def ParseError.moved (k : Nat) : ParseError → ParseError
  | noToken => noToken
  | emptyExpression => emptyExpression
  | unmatchedParenthesis opening => unmatchedParenthesis (opening + k)
  | unmatchedQuote quote opening => unmatchedQuote quote (opening + k)
  | missingSeparator after offset => missingSeparator after (offset + k)
  | unknownOperator token offset => unknownOperator token (offset + k)
  | unknownAttributeKind token offset => unknownAttributeKind token (offset + k)
  | expectedConnective token offset => expectedConnective token (offset + k)
  | mixedConnectives expected found offset => mixedConnectives expected found (offset + k)
  | unexpectedCharacter character offset => unexpectedCharacter character (offset + k)
  | danglingConnective => danglingConnective
  | emptyValueList offset => emptyValueList (offset + k)

/-- The same token in a text that stands `k` bytes further on. -/
def Token.moved (k : Nat) (t : Token) : Token := ⟨t.text, t.quoted, t.offset + k⟩

/-- What may follow a text without a difference to the scans in it: nothing, or a parenthesis that
closes. -/
def ClosesGroup (tail : List Char) : Prop := ∀ d ∈ tail.head?, d = ')'

theorem closesGroup_nil : ClosesGroup [] := by simp [ClosesGroup]

theorem closesGroup_cons (tail : List Char) : ClosesGroup (')' :: tail) := by simp [ClosesGroup]

namespace Cursor

variable {k : Nat} {tail : List Char} {c : Cursor}

@[simp] theorem moved_nil_rest : (c.moved k []).rest = c.rest := by simp [moved]

theorem moved_rest : (c.moved k tail).rest = c.rest ++ tail := rfl

@[simp] theorem moved_offset : (c.moved k tail).offset = c.offset + k := rfl

@[simp] theorem current?_moved_nil : (c.moved k []).current? = c.current? := by simp [current?]

@[simp] theorem isAtEnd_moved_nil : (c.moved k []).isAtEnd = c.isAtEnd := by simp [isAtEnd]

theorem current?_moved {d : Char} (h : c.current? = some d) :
    (c.moved k tail).current? = some d := by
  simp only [current?] at h
  simp [current?, moved, List.head?_append, h]

/-- No parenthesis opens in what follows. -/
theorem current?_moved_ne (htail : ClosesGroup tail) (h : c.current? ≠ some '(') :
    (c.moved k tail).current? ≠ some '(' := by
  obtain ⟨rest, offset⟩ := c
  cases rest with
  | nil =>
    intro hopen
    have hhead : tail.head? = some '(' := hopen
    cases htail '(' hhead
  | cons d rest => simpa [moved] using h

theorem isAtEnd_moved (h : c.isAtEnd = false) : (c.moved k tail).isAtEnd = false := by
  simp only [isAtEnd, List.isEmpty_eq_false_iff] at h ⊢
  simp [moved, h]

theorem advance_moved {d : Char} (h : c.current? = some d) :
    (c.moved k tail).advance = c.advance.moved k tail := by
  obtain ⟨rest, offset⟩ := c
  cases rest with
  | nil => cases h
  | cons e rest => simp [moved, Nat.add_right_comm]

theorem skipWhile_moved {p : Char → Bool} (h : ∀ d ∈ tail.head?, p d = false) :
    (c.moved k tail).skipWhile p = (c.skipWhile p).moved k tail := by
  simp only [moved, skipWhile, takeWhile_append_of_head h, dropWhile_append_of_head h,
    Nat.add_right_comm]

theorem skipBlanks_moved (h : ClosesGroup tail) :
    (c.moved k tail).skipBlanks = c.skipBlanks.moved k tail := by
  refine skipWhile_moved fun d hd => ?_
  rw [h d hd]
  rfl

theorem advanceTo_moved (c : Cursor) (rest tail : List Char) :
    (c.moved k tail).advanceTo (rest ++ tail) = (c.advanceTo rest).moved k tail := by
  have hlength : (c.rest ++ tail).length - (rest ++ tail).length = c.rest.length - rest.length := by
    simp only [List.length_append]
    omega
  simp only [advanceTo, moved, hlength, Nat.add_right_comm,
    List.take_append_of_le_length (Nat.sub_le _ _)]

end Cursor

theorem unquote_append {quote : Char} {text inner rest tail : List Char}
    (h : unquote quote text = some (inner, rest)) (htail : tail.head? ≠ some quote) :
    unquote quote (text ++ tail) = some (inner, rest ++ tail) := by
  obtain ⟨rfl, hrest⟩ := unquote_eq_some.1 h
  refine unquote_eq_some.2 ⟨by simp, ?_⟩
  cases rest with
  | nil => simpa using htail
  | cons d rest => simpa using hrest

namespace Scan

variable {α β γ δ : Type} {k : Nat} {tail : List Char}

/-! ## Moved scans -/

/-- The outcome of a scan in a moved text, given its outcome in the text: the same result, and the
same error if the text does not go on. -/
def Relocated (k : Nat) (tail : List Char) (f : α → β) (r : EStateM.Result ParseError Cursor α)
    (r' : EStateM.Result ParseError Cursor β) : Prop :=
  match r with
  | .ok a next => r' = .ok (f a) (next.moved k tail)
  | .error e next => tail = [] → r' = .error (e.moved k) (next.moved k tail)

/-- Two scans of which the second does in every moved text what the first does in the text. -/
def Relocates (k : Nat) (tail : List Char) (f : α → β) (x : Scan α) (y : Scan β) : Prop :=
  ∀ c, Relocated k tail f (x c) (y (c.moved k tail))

theorem Relocated.ok {f : α → β} {a : α} {next : Cursor}
    {r' : EStateM.Result ParseError Cursor β} (h : Relocated k tail f (.ok a next) r') :
    r' = .ok (f a) (next.moved k tail) := h

theorem Relocated.error {f : α → β} {e : ParseError} {next : Cursor}
    {r' : EStateM.Result ParseError Cursor β} (h : Relocated k [] f (.error e next) r') :
    r' = .error (e.moved k) (next.moved k []) := h rfl

/-- Sequencing, where the second scan only has to be considered where the first one ends. -/
theorem Relocated.bind {f : α → β} {g : γ → δ} {x : Scan α} {y : Scan β} {u : α → Scan γ}
    {v : β → Scan δ} {c c' : Cursor} (hx : Relocated k tail f (x c) (y c'))
    (hu : ∀ a next, x c = .ok a next →
      Relocated k tail g (u a next) (v (f a) (next.moved k tail))) :
    Relocated k tail g ((x >>= u) c) ((y >>= v) c') := by
  cases hxc : x c with
  | ok a next =>
    rw [hxc] at hx
    rw [bind_ok hxc, bind_ok hx.ok]
    exact hu a next hxc
  | error e next =>
    rw [hxc] at hx
    rw [bind_error hxc]
    intro htail
    exact bind_error (hx htail)

theorem Relocated.map {f : α → β} {g : γ → δ} {x : Scan α} {y : Scan β} {c c' : Cursor}
    (hx : Relocated k tail f (x c) (y c')) {u : α → γ} {v : β → δ}
    (huv : ∀ a, v (f a) = g (u a)) : Relocated k tail g ((u <$> x) c) ((v <$> y) c') := by
  cases hxc : x c with
  | ok a next =>
    rw [hxc] at hx
    rw [map_ok hxc, map_ok hx.ok, huv]
    rfl
  | error e next =>
    rw [hxc] at hx
    rw [map_error hxc]
    intro htail
    exact map_error (hx htail)

namespace Relocates

theorem bind {f : α → β} {g : γ → δ} {x : Scan α} {y : Scan β} {u : α → Scan γ} {v : β → Scan δ}
    (hx : Relocates k tail f x y) (hu : ∀ a, Relocates k tail g (u a) (v (f a))) :
    Relocates k tail g (x >>= u) (y >>= v) :=
  fun c => (hx c).bind fun a next _ => hu a next

theorem pure {f : α → β} (a : α) : Relocates k tail f (pure a) (pure (f a)) := fun _ => rfl

theorem throw {f : α → β} (e : ParseError) :
    Relocates k tail f (throw e) (throw (e.moved k)) := fun _ _ => rfl

theorem map {f : α → β} {g : γ → δ} {x : Scan α} {y : Scan β} (hx : Relocates k tail f x y)
    {u : α → γ} {v : β → δ} (huv : ∀ a, v (f a) = g (u a)) :
    Relocates k tail g (u <$> x) (v <$> y) := fun c => (hx c).map huv

end Relocates

/-! ## Blanks, stretches of text and tokens -/

theorem relocates_skipSpace (htail : ClosesGroup tail) :
    Relocates k tail id skipSpace skipSpace := by
  intro c
  unfold skipSpace
  dsimp only
  rw [Cursor.skipBlanks_moved htail]
  cases hend : c.skipBlanks.isAtEnd with
  | true =>
    rintro rfl
    simp [hend, ParseError.moved]
  | false =>
    simp [Cursor.isAtEnd_moved hend, Relocated]

theorem relocates_takeUntil (htail : ClosesGroup tail) {stop : Char → Bool}
    (hstop : stop ')' = true) :
    Relocates k tail id (takeUntil stop false) (takeUntil stop false) := by
  intro c
  have hhead : ∀ d ∈ tail.head?, (!stop d) = false := by
    intro d hd
    rw [htail d hd, hstop]
    rfl
  unfold takeUntil
  rw [Cursor.skipWhile_moved hhead]
  simp [Relocated, Cursor.moved, takeWhile_append_of_head hhead]

theorem relocated_readQuoted (htail : ClosesGroup tail) {quote : Char} {c : Cursor}
    (hquote : isQuote quote = true) (hc : c.current? = some quote) :
    Relocated k tail id (readQuoted quote c) (readQuoted quote (c.moved k tail)) := by
  have hhead : tail.head? ≠ some quote := by
    intro h
    rw [htail quote h] at hquote
    cases hquote
  unfold readQuoted
  rw [Cursor.advance_moved hc]
  cases hinside : unquote quote c.advance.rest with
  | some p =>
    obtain ⟨inner, rest⟩ := p
    simp only [Cursor.moved_rest, unquote_append hinside hhead, Cursor.advanceTo_moved]
    rfl
  | none =>
    rintro rfl
    have hend := Cursor.advanceTo_moved (k := k) c [] []
    simp only [Cursor.moved_nil_rest, hinside, Cursor.toEnd]
    rw [← hend]
    rfl

/-- A scan that fails at the character under the cursor only has to be matched where the text does
not go on. -/
theorem relocated_unexpected {f : α → β} {y : Scan β} {c : Cursor}
    (hy : tail = [] → y (c.moved k tail) = unexpected (c.moved k tail)) :
    Relocated k tail f (unexpected c) (y (c.moved k tail)) := by
  unfold unexpected at hy ⊢
  cases hc : c.current? with
  | none =>
    rintro rfl
    rw [hy rfl]
    simp [hc, ParseError.moved]
  | some d =>
    rintro rfl
    rw [hy rfl]
    simp [hc, ParseError.moved]

@[simp] theorem isEmpty_moved {t : Token} : (t.moved k).isEmpty = t.isEmpty := rfl

/-- Where there is something to read, blanks are moved over up to a character. -/
theorem exists_current?_of_skipSpace {c next : Cursor} (h : skipSpace c = .ok () next) :
    ∃ d, next.current? = some d := by
  unfold skipSpace at h
  dsimp only at h
  split at h
  · cases h
  · rename_i hend
    cases h
    cases hrest : c.skipBlanks.rest with
    | nil => simp [Cursor.isAtEnd, hrest] at hend
    | cons d rest => exact ⟨d, by simp [Cursor.current?, hrest]⟩

theorem relocates_readToken (htail : ClosesGroup tail) :
    Relocates k tail (Token.moved k) readToken readToken := by
  intro c
  refine (relocates_skipSpace htail c).bind fun _ start hstart => ?_
  obtain ⟨d, hd⟩ := exists_current?_of_skipSpace hstart
  rw [bind_get, bind_get, hd, Cursor.current?_moved hd]
  cases hquote : isQuote d with
  | true =>
    simp only [Option.filter_some, hquote, if_true]
    exact (relocated_readQuoted htail hquote hd).bind fun _ _ _ => rfl
  | false =>
    simp only [Option.filter_some, hquote, Bool.false_eq_true, if_false]
    exact (relocates_takeUntil htail rfl start).bind fun _ _ _ => rfl

theorem relocates_readWord (htail : ClosesGroup tail) :
    Relocates k tail (Token.moved k) readWord readWord := by
  refine (relocates_readToken htail).bind fun token => ?_
  rw [isEmpty_moved]
  split
  · exact fun c => relocated_unexpected fun _ => rfl
  · exact .pure token

/-! ## Lists of values -/

theorem relocates_readValue (htail : ClosesGroup tail) (opening : Nat) (first : Bool) :
    Relocates k tail id (readValue opening first) (readValue (opening + k) first) := by
  intro c
  unfold readValue
  dsimp only
  rw [Cursor.skipBlanks_moved htail]
  cases hc : c.skipBlanks.current? with
  | none =>
    rintro rfl
    simp [hc, ParseError.moved]
  | some d =>
    rw [Cursor.current?_moved hc]
    dsimp only
    split
    · exact fun _ => rfl
    · split
      · rename_i hquote
        exact relocated_readQuoted htail hquote hc
      · have htake : Relocates k tail id (takeUntil (fun d => d == ',' || d == ')') false)
            (takeUntil (fun d => d == ',' || d == ')') false) := relocates_takeUntil htail rfl
        have htrim (value : String) : trim (id value) = id (trim value) := rfl
        exact htake.map htrim c.skipBlanks

theorem relocates_readAfterValue (htail : ClosesGroup tail) (opening : Nat) :
    Relocates k tail id (readAfterValue opening) (readAfterValue (opening + k)) := by
  intro c
  unfold readAfterValue
  dsimp only
  rw [Cursor.skipBlanks_moved htail]
  cases hc : c.skipBlanks.current? with
  | none =>
    rintro rfl
    simp [hc, ParseError.moved]
  | some d =>
    rw [Cursor.current?_moved hc, Cursor.advance_moved hc]
    dsimp only
    split
    · rfl
    · split
      · rfl
      · exact fun _ => rfl

theorem relocates_readElement (htail : ClosesGroup tail) (opening : Nat) (first : Bool) :
    Relocates k tail id (readElement opening first) (readElement (opening + k) first) :=
  (relocates_readValue htail opening first).bind fun _ =>
    (relocates_readAfterValue htail opening).bind fun _ => .pure _

theorem relocates_readElements (htail : ClosesGroup tail) (opening : Nat) (values : List String) :
    Relocates k tail id (readElements opening values) (readElements (opening + k) values) := by
  intro c
  have hstep := relocates_readElement (k := k) htail opening
  fun_induction readElements opening values c with
  | case1 values c e stopped hel =>
    have hmoved := hstep values.isEmpty c
    rw [hel] at hmoved
    exact fun hnil => readElements_error (hmoved hnil)
  | case2 values c value next hel =>
    have hmoved := hstep values.isEmpty c
    rw [hel] at hmoved
    exact readElements_closing hmoved.ok
  | case3 values c value next hel ih =>
    have hmoved := hstep values.isEmpty c
    rw [hel] at hmoved
    rw [readElements_comma hmoved.ok]
    exact ih

/-- A list of values stands on its opening parenthesis, so there is something to move over. -/
theorem relocated_readValueList (htail : ClosesGroup tail) {c : Cursor}
    (hc : c.current? = some '(') :
    Relocated k tail id (readValueList c) (readValueList (c.moved k tail)) := by
  unfold readValueList
  rw [Cursor.advance_moved hc]
  exact relocates_readElements htail c.offset [] c.advance

/-! ## Comparisons -/

theorem relocates_expectDot (htail : ClosesGroup tail) (after : String) :
    Relocates k tail id (expectDot after) (expectDot after) := by
  intro c
  unfold expectDot
  dsimp only
  rw [Cursor.skipBlanks_moved htail]
  by_cases hc : c.skipBlanks.current? = some '.'
  · rw [if_pos hc, if_pos (Cursor.current?_moved hc), Cursor.advance_moved hc]
    rfl
  · rw [if_neg hc]
    rintro rfl
    simp [hc, ParseError.moved]

theorem scopeOfKind_moved (source : String) (kind : Token) :
    scopeOfKind source (kind.moved k) = (scopeOfKind source kind).mapError (.moved k) := by
  have hkind : ∀ keyword, (kind.moved k).isKeyword keyword = kind.isKeyword keyword := fun _ => rfl
  simp only [scopeOfKind, hkind]
  split
  · rfl
  · split <;> rfl

theorem relocates_readAttribute (htail : ClosesGroup tail) (first : Token) :
    Relocates k tail id (readAttribute first) (readAttribute (first.moved k)) := by
  refine (relocates_expectDot htail first.text).bind fun _ => ?_
  have hfirst : (first.moved k).isKeyword "identity" = first.isKeyword "identity" := rfl
  rw [hfirst]
  split
  · exact (relocates_readWord htail).bind fun _ => .pure _
  · refine (relocates_readWord htail).bind fun kind => ?_
    refine (relocates_expectDot htail kind.text).bind fun _ => ?_
    have hscope : scopeOfKind (first.moved k).text (kind.moved k) =
      (scopeOfKind first.text kind).mapError (.moved k) := scopeOfKind_moved _ kind
    rw [hscope]
    cases scopeOfKind first.text kind with
    | error e => exact .throw e
    | ok scope => exact (relocates_readWord htail).bind fun property => .pure _

theorem relocates_readOperator (htail : ClosesGroup tail) :
    Relocates k tail id readOperator readOperator := by
  refine (relocates_readWord htail).bind fun token => ?_
  have htoken : (token.moved k).quoted = token.quoted ∧ (token.moved k).text = token.text :=
    ⟨rfl, rfl⟩
  rw [htoken.1, htoken.2]
  split
  · exact .pure _
  · exact .throw (.unknownOperator token.text token.offset)

theorem relocates_readLiteral (htail : ClosesGroup tail) :
    Relocates k tail id readLiteral readLiteral := by
  refine (relocates_readToken htail).bind fun token => ?_
  rw [isEmpty_moved]
  split
  · intro c
    rw [bind_get, bind_get]
    by_cases hc : c.current? = some '('
    · rw [if_pos hc, if_pos (Cursor.current?_moved hc)]
      exact (relocated_readValueList htail hc).map fun _ => rfl
    · rw [if_neg hc]
      refine relocated_unexpected fun hnil => ?_
      subst hnil
      rw [Cursor.current?_moved_nil, if_neg hc]
  · exact .pure _

theorem relocates_readComparison (htail : ClosesGroup tail) (first : Token) :
    Relocates k tail id (readComparison first) (readComparison (first.moved k)) := by
  refine (relocates_readAttribute htail first).bind fun subject => ?_
  refine (relocates_readOperator htail).bind fun operator => ?_
  exact (relocates_readLiteral htail).bind fun value => .pure _

end Scan

/-! ## Groups -/

namespace GroupSearch

variable {k : Nat}

/-- The same search in a text that stands `k` bytes further on. -/
def moved (k : Nat) (s : GroupSearch) : GroupSearch := ⟨s.cursor.moved k [], s.depth, s.previous⟩

/-- The same outcome of a step in a text that stands `k` bytes further on. -/
def Outcome.moved (k : Nat) : Outcome → Outcome
  | .more next => .more (next.moved k)
  | .found closing => .found (closing.moved k [])
  | .failed e stopped => .failed (e.moved k) (stopped.moved k [])

theorem step_moved (opening : Nat) (s : GroupSearch) :
    (s.moved k).step (opening + k) = (s.step opening).moved k := by
  unfold step
  simp only [moved, Cursor.current?_moved_nil]
  cases hc : s.cursor.current? with
  | none => rfl
  | some c =>
    simp only [Cursor.advance_moved hc]
    split
    · rfl
    · split
      · split <;> rfl
      · split
        · rename_i hquote
          rw [Bool.and_eq_true] at hquote
          have hread := Scan.relocated_readQuoted (k := k) closesGroup_nil hquote.1 hc
          cases hresult : Scan.readQuoted c s.cursor with
          | ok text next =>
            rw [hresult] at hread
            rw [hread.ok]
            rfl
          | error e stopped =>
            rw [hresult] at hread
            rw [hread.error]
            rfl
        · rfl

theorem relocated_run (opening : Nat) (s : GroupSearch) :
    Scan.Relocated k [] (Cursor.moved k []) (s.run opening) ((s.moved k).run (opening + k)) := by
  have hmoved := step_moved (k := k) opening
  fun_induction run opening s with
  | case1 s next hstep ih =>
    have hstep' := hmoved s
    rw [hstep] at hstep'
    rw [run_of_more hstep']
    exact ih
  | case2 s closing hstep =>
    have hstep' := hmoved s
    rw [hstep] at hstep'
    exact run_of_found hstep'
  | case3 s e stopped hstep =>
    have hstep' := hmoved s
    rw [hstep] at hstep'
    exact fun _ => run_of_failed hstep'

end GroupSearch

namespace Scan

variable {k : Nat} {tail : List Char}

/-- A group is searched for after its opening parenthesis, so never at the start of a text. -/
theorem relocated_readGroup {c : Cursor} (hc : 1 ≤ c.offset) :
    Relocated k tail (Cursor.moved k []) (readGroup c) (readGroup (c.moved k tail)) := by
  cases hgroup : readGroup c with
  | ok inside next =>
    obtain ⟨text, rest, hrest, htext, rfl, rfl⟩ := readGroup_eq_ok.1 hgroup
    have hmoved := readGroup_append htext (rest ++ tail) (c.offset + k)
    have hc' : c.moved k tail = ⟨text ++ ')' :: (rest ++ tail), c.offset + k⟩ := by
      simp [Cursor.moved, hrest]
    rw [hc', hmoved]
    simp [Relocated, Cursor.moved, Nat.add_right_comm]
  | error e stopped =>
    rintro rfl
    have hopening : (c.moved k []).offset - 1 = c.offset - 1 + k := by
      simp only [Cursor.moved_offset]
      omega
    have hrun := (GroupSearch.start c).relocated_run (k := k) (c.offset - 1)
    unfold readGroup at hgroup ⊢
    rw [hopening]
    cases hsearch : (GroupSearch.start c).run (c.offset - 1) with
    | ok closing after =>
      rw [hsearch] at hgroup
      cases hgroup
    | error e' stopped' =>
      rw [hsearch] at hgroup hrun
      cases hgroup
      have hstart : GroupSearch.start (c.moved k []) = (GroupSearch.start c).moved k := rfl
      rw [hstart, hrun.error]

/-! ## Operands and connectives -/

/-- The same operand in a text that stands `k` bytes further on. -/
def Operand.moved (k : Nat) : Operand → Operand
  | .comparison x => .comparison x
  | .group inside => .group (inside.moved k [])

theorem relocates_readComparisonOperand (htail : ClosesGroup tail) :
    Relocates k tail (Operand.moved k) readComparisonOperand readComparisonOperand := by
  refine (relocates_readToken htail).bind fun token => ?_
  rw [isEmpty_moved]
  split
  · exact fun c => relocated_unexpected fun _ => rfl
  · exact (relocates_readComparison htail token).map fun _ => rfl

theorem relocates_readConnective (htail : ClosesGroup tail) :
    Relocates k tail (Prod.map id (Token.moved k)) readConnective readConnective := by
  refine (relocates_readToken htail).bind fun token => ?_
  have htoken : (token.moved k).quoted = token.quoted ∧ (token.moved k).text = token.text :=
    ⟨rfl, rfl⟩
  rw [htoken.1, htoken.2]
  split
  · exact .pure _
  · exact .throw (.expectedConnective token.text token.offset)

theorem relocates_readOperand (htail : ClosesGroup tail) :
    Relocates k tail (Operand.moved k) readOperand readOperand := by
  intro c
  unfold readOperand
  by_cases hc : c.current? = some '('
  · rw [if_pos hc, if_pos (Cursor.current?_moved hc), Cursor.advance_moved hc]
    refine (relocated_readGroup ?_).map fun _ => rfl
    obtain ⟨rest, offset⟩ := c
    cases rest with
    | nil => cases hc
    | cons d rest =>
      have hd := d.utf8Size_pos
      simp only [Cursor.advance_cons]
      omega
  · rw [if_neg hc, if_neg (Cursor.current?_moved_ne htail hc)]
    exact relocates_readComparisonOperand htail c

end Scan

end Eligibility
