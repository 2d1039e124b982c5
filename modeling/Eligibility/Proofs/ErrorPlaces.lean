import Eligibility.Proofs.Soundness

/-!
# Where errors point

The offset in an error leads to a place of the whole text, and what the error speaks of stands there
(`Expression.pointsInto_of_parse`), however deep the group is nested that could not be read. A scan
reads a fragment of the text with its own offsets, so what is carried along is where the fragment
stands in the text: `StandsAt` for the unread part of the fragment, and `Points` for every scan.
-/

namespace Eligibility

/-- The end of a text that begins at a byte offset. -/
def StandsAt (text : List Char) (offset : Nat) (rest : List Char) : Prop :=
  ∃ before, text = before ++ rest ∧ byteLength before = offset

/-- A word that stands at an offset up to a delimiter, or to the end of the text. -/
def WordAt (text : List Char) (offset : Nat) (word : String) : Prop :=
  (∀ c ∈ word.toList, isDelimiter c = false) ∧
    ∃ rest, StandsAt text offset (word.toList ++ rest) ∧ EndsToken rest

/-- A string between quotes that stands at an offset. -/
def QuotedAt (text : List Char) (offset : Nat) (inner : String) : Prop :=
  ∃ quote rest, isQuote quote = true ∧ rest.head? ≠ some quote ∧
    StandsAt text offset (quote :: doubled quote inner.toList ++ [quote] ++ rest)

/-- What an error speaks of stands at its offset. -/
def ParseError.PointsInto (text : List Char) : ParseError → Prop
  | noToken | emptyExpression | danglingConnective => True
  | unmatchedParenthesis opening | emptyValueList opening =>
    ∃ rest, StandsAt text opening ('(' :: rest)
  | unmatchedQuote quote opening =>
    isQuote quote = true ∧ ∃ rest, StandsAt text opening (quote :: rest)
  | missingSeparator _ offset => ∃ rest, StandsAt text offset rest ∧ rest.head? ≠ some '.'
  | unknownOperator word offset | unknownAttributeKind word offset =>
    (WordAt text offset word ∧ word ≠ "") ∨ QuotedAt text offset word
  | expectedConnective word offset => WordAt text offset word ∨ QuotedAt text offset word
  | mixedConnectives _ found offset => WordAt text offset found ∧ found ≠ ""
  | unexpectedCharacter c offset => ∃ rest, StandsAt text offset (c :: rest)

/-- The offset that an error carries. -/
def ParseError.offset? : ParseError → Option Nat
  | noToken | emptyExpression | danglingConnective => none
  | unmatchedParenthesis opening | emptyValueList opening => some opening
  | unmatchedQuote _ opening => some opening
  | missingSeparator _ offset => some offset
  | unknownOperator _ offset | unknownAttributeKind _ offset => some offset
  | expectedConnective _ offset => some offset
  | mixedConnectives _ _ offset => some offset
  | unexpectedCharacter _ offset => some offset

theorem StandsAt.offset_le {text rest : List Char} {offset : Nat} (h : StandsAt text offset rest) :
    offset ≤ byteLength text := by
  obtain ⟨before, rfl, rfl⟩ := h
  rw [byteLength_append]
  exact Nat.le_add_right _ _

theorem StandsAt.after {text w rest : List Char} {offset : Nat}
    (h : StandsAt text offset (w ++ rest)) : StandsAt text (offset + byteLength w) rest := by
  obtain ⟨before, rfl, rfl⟩ := h
  exact ⟨before ++ w, by rw [List.append_assoc], byteLength_append before w⟩

theorem WordAt.standsAt {text : List Char} {offset : Nat} {word : String}
    (h : WordAt text offset word) : ∃ rest, StandsAt text offset rest := by
  obtain ⟨-, rest, hstands, -⟩ := h
  exact ⟨_, hstands⟩

theorem QuotedAt.standsAt {text : List Char} {offset : Nat} {inner : String}
    (h : QuotedAt text offset inner) : ∃ rest, StandsAt text offset rest := by
  obtain ⟨quote, rest, -, -, hstands⟩ := h
  exact ⟨_, hstands⟩

/-- An offset that an error carries leads to a character of the text or to its end. -/
theorem ParseError.PointsInto.standsAt {text : List Char} {e : ParseError} {offset : Nat}
    (h : e.PointsInto text) (hoffset : e.offset? = some offset) :
    ∃ rest, StandsAt text offset rest := by
  cases e with
  | noToken | emptyExpression | danglingConnective => cases hoffset
  | unmatchedParenthesis opening | emptyValueList opening =>
    cases hoffset
    obtain ⟨rest, hstands⟩ := h
    exact ⟨_, hstands⟩
  | unmatchedQuote quote opening =>
    cases hoffset
    obtain ⟨-, rest, hstands⟩ := h
    exact ⟨_, hstands⟩
  | missingSeparator after offset =>
    cases hoffset
    obtain ⟨rest, hstands, -⟩ := h
    exact ⟨rest, hstands⟩
  | unknownOperator word offset | unknownAttributeKind word offset =>
    cases hoffset
    rcases h with ⟨hword, -⟩ | hquoted
    · exact hword.standsAt
    · exact hquoted.standsAt
  | expectedConnective word offset =>
    cases hoffset
    rcases h with hword | hquoted
    · exact hword.standsAt
    · exact hquoted.standsAt
  | mixedConnectives expected found offset =>
    cases hoffset
    exact h.1.standsAt
  | unexpectedCharacter c offset =>
    cases hoffset
    obtain ⟨rest, hstands⟩ := h
    exact ⟨_, hstands⟩

/-! ## Cursors -/

/-- The place of a cursor in a text that goes on with `tail` behind the fragment of the cursor. -/
def Cursor.In (text tail : List Char) (c : Cursor) : Prop :=
  StandsAt text c.offset (c.rest ++ tail)

namespace Cursor.In

variable {text tail : List Char} {c : Cursor}

theorem moved {w rest : List Char} (h : c.In text tail) (hw : c.rest = w ++ rest) :
    (⟨rest, c.offset + byteLength w⟩ : Cursor).In text tail := by
  have hstands : StandsAt text c.offset (w ++ (rest ++ tail)) := by
    rw [← List.append_assoc, ← hw]
    exact h
  exact hstands.after

theorem skipWhile (h : c.In text tail) (p : Char → Bool) : (c.skipWhile p).In text tail :=
  h.moved List.takeWhile_append_dropWhile.symm

theorem skipBlanks (h : c.In text tail) : c.skipBlanks.In text tail := h.skipWhile isBlank

theorem advance (h : c.In text tail) : c.advance.In text tail := by
  obtain ⟨rest, offset⟩ := c
  cases rest with
  | nil => exact h
  | cons d rest =>
    have hrest : (⟨d :: rest, offset⟩ : Cursor).rest = [d] ++ rest := rfl
    have hmoved := h.moved hrest
    simpa using hmoved

/-- The text goes on with the character under the cursor. -/
theorem current {d : Char} (h : c.In text tail) (hd : c.current? = some d) :
    StandsAt text c.offset (d :: (c.advance.rest ++ tail)) := by
  have hrest := Cursor.rest_eq_cons hd
  have hstands : StandsAt text c.offset (c.rest ++ tail) := h
  rw [hrest] at hstands
  exact hstands

end Cursor.In

namespace Scan

variable {α β : Type} {text tail : List Char}

/-! ## Scans in a text -/

/-- A scan that ends in the text, with a result as described, or whose error points into the
text. -/
def Lands (text tail : List Char) (P : α → Prop) : EStateM.Result ParseError Cursor α → Prop
  | .ok a next => P a ∧ next.In text tail
  | .error e _ => e.PointsInto text

/-- A scan that lands wherever it starts in the text. -/
def Points (text tail : List Char) (x : Scan α) (P : α → Prop) : Prop :=
  ∀ c, c.In text tail → Lands text tail P (x c)

theorem Lands.bind {x : Scan α} {f : α → Scan β} {P : α → Prop} {Q : β → Prop} {c : Cursor}
    (hx : Lands text tail P (x c))
    (hf : ∀ a next, x c = .ok a next → P a → next.In text tail → Lands text tail Q (f a next)) :
    Lands text tail Q ((x >>= f) c) := by
  cases hxc : x c with
  | ok a next =>
    rw [hxc] at hx
    rw [bind_ok hxc]
    exact hf a next hxc hx.1 hx.2
  | error e next =>
    rw [hxc] at hx
    rw [bind_error hxc]
    exact hx

theorem Lands.map {x : Scan α} {P : α → Prop} {Q : β → Prop} {c : Cursor}
    (hx : Lands text tail P (x c)) {f : α → β} (hf : ∀ a, P a → Q (f a)) :
    Lands text tail Q ((f <$> x) c) := by
  cases hxc : x c with
  | ok a next =>
    rw [hxc] at hx
    rw [map_ok hxc]
    exact ⟨hf a hx.1, hx.2⟩
  | error e next =>
    rw [hxc] at hx
    rw [map_error hxc]
    exact hx

namespace Points

variable {x : Scan α} {f : α → Scan β} {P : α → Prop} {Q : β → Prop}

theorem pure {a : α} (h : P a) : Points text tail (pure a) P := fun _ hc => ⟨h, hc⟩

theorem throw {e : ParseError} (h : e.PointsInto text) : Points text tail (throw e) P :=
  fun _ _ => h

theorem bind (hx : Points text tail x P) (hf : ∀ a, P a → Points text tail (f a) Q) :
    Points text tail (x >>= f) Q :=
  fun c hc => (hx c hc).bind fun a next _ ha hnext => hf a ha next hnext

theorem map (hx : Points text tail x P) {f : α → β} (hf : ∀ a, P a → Q (f a)) :
    Points text tail (f <$> x) Q := fun c hc => (hx c hc).map hf

end Points

/-! ## Tokens -/

/-- A token stands at its offset. -/
def TokenAt (text : List Char) (token : Token) : Prop :=
  (token.quoted = false ∧ WordAt text token.offset token.text) ∨
    (token.quoted = true ∧ QuotedAt text token.offset token.text)

theorem points_skipSpace : Points text tail skipSpace fun _ => True := by
  intro c hc
  unfold skipSpace
  dsimp only
  split
  · trivial
  · exact ⟨trivial, hc.skipBlanks⟩

theorem points_unexpected {P : α → Prop} : Points text tail unexpected P := by
  intro c hc
  unfold unexpected
  split
  · trivial
  · rename_i d hd
    exact ⟨_, hc.current hd⟩

theorem endsToken_append_closing {rest : List Char} (htail : ClosesGroup tail)
    (h : EndsToken rest) : EndsToken (rest ++ tail) := by
  intro d hd
  cases rest with
  | nil => rw [htail d hd]; rfl
  | cons e rest => exact h d hd

theorem head?_append_closing {rest : List Char} {quote : Char} (htail : ClosesGroup tail)
    (hquote : isQuote quote = true) (h : rest.head? ≠ some quote) :
    (rest ++ tail).head? ≠ some quote := by
  cases rest with
  | nil =>
    intro hhead
    rw [htail quote hhead] at hquote
    cases hquote
  | cons d rest => simpa using h

theorem lands_readQuoted (htail : ClosesGroup tail) {quote : Char} {c : Cursor}
    (hquote : isQuote quote = true) (hc : c.In text tail) (hcurrent : c.current? = some quote) :
    Lands text tail (QuotedAt text c.offset) (readQuoted quote c) := by
  obtain ⟨rest, offset⟩ := c
  have hrest := Cursor.rest_eq_cons hcurrent
  simp only at hrest
  rw [hrest] at hc ⊢
  cases hread : readQuoted quote ⟨quote :: _, offset⟩ with
  | ok inner next =>
    obtain ⟨inner, after, htext, hafter, rfl, rfl⟩ := readQuoted_eq_ok hread
    rw [htext] at hc
    have hwhole : quote :: (doubled quote inner ++ quote :: after) =
        quote :: doubled quote inner ++ [quote] ++ after := by simp
    rw [hwhole] at hc
    refine ⟨⟨quote, after ++ tail, hquote, head?_append_closing htail hquote hafter, ?_⟩,
      hc.moved rfl⟩
    have hstands : StandsAt text offset (quote :: doubled quote inner ++ [quote] ++ after ++ tail) :=
      hc
    simpa using hstands
  | error e stopped =>
    unfold readQuoted at hread
    split at hread
    · cases hread
    · cases hread
      exact ⟨hquote, _, hc⟩

theorem points_readToken (htail : ClosesGroup tail) :
    Points text tail readToken (TokenAt text) := by
  intro c hc
  refine (points_skipSpace c hc).bind fun _ start hstart _ hin => ?_
  obtain ⟨d, hd⟩ := exists_current?_of_skipSpace hstart
  rw [bind_get, hd]
  cases hquote : isQuote d with
  | true =>
    simp only [Option.filter_some, hquote, if_true]
    refine (lands_readQuoted htail hquote hin hd).bind fun inner next _ hinner hnext => ?_
    exact ⟨.inr ⟨rfl, hinner⟩, hnext⟩
  | false =>
    simp only [Option.filter_some, hquote, Bool.false_eq_true, if_false]
    have htake : takeUntil isDelimiter false start =
        .ok (String.ofList (start.rest.takeWhile (!isDelimiter ·)))
          (start.skipWhile (!isDelimiter ·)) := rfl
    obtain ⟨hplain, hstop⟩ := takeWhile_dropWhile (!isDelimiter ·) start.rest
    have hends : EndsToken (start.rest.dropWhile (!isDelimiter ·)) := by
      intro e he
      simpa using hstop e he
    have hstands : StandsAt text start.offset (start.rest ++ tail) := hin
    rw [← List.takeWhile_append_dropWhile (p := (!isDelimiter ·)) (l := start.rest),
      List.append_assoc] at hstands
    rw [bind_ok htake]
    refine ⟨.inl ⟨rfl, ?_, _, ?_, endsToken_append_closing htail hends⟩, hin.skipWhile _⟩
    · simpa using hplain
    · simpa using hstands

/-- A token that is not empty stands at its offset. -/
theorem TokenAt.word_or_quoted {token : Token} (h : TokenAt text token)
    (hne : token.isEmpty = false) :
    (WordAt text token.offset token.text ∧ token.text ≠ "") ∨
      QuotedAt text token.offset token.text := by
  rcases h with ⟨hquoted, hword⟩ | ⟨-, hword⟩
  · refine .inl ⟨hword, ?_⟩
    simpa [Token.isEmpty, hquoted] using hne
  · exact .inr hword

theorem points_readWord (htail : ClosesGroup tail) :
    Points text tail readWord fun token => TokenAt text token ∧ token.isEmpty = false := by
  refine (points_readToken htail).bind fun token htoken => ?_
  split
  · exact points_unexpected
  · rename_i hne
    exact .pure ⟨htoken, Bool.eq_false_iff.2 hne⟩

/-! ## Comparisons -/

theorem points_expectDot (htail : ClosesGroup tail) (after : String) :
    Points text tail (expectDot after) fun _ => True := by
  intro c hc
  unfold expectDot
  dsimp only
  split
  · exact ⟨trivial, hc.skipBlanks.advance⟩
  · rename_i hdot
    refine ⟨_, hc.skipBlanks, ?_⟩
    -- behind a fragment the text ends, or goes on with a parenthesis
    intro hhead
    cases hrest : c.skipBlanks.rest with
    | nil =>
      rw [hrest] at hhead
      cases htail '.' hhead
    | cons d rest =>
      rw [hrest] at hhead
      exact hdot (by rw [Cursor.current?, hrest]; exact hhead)

theorem pointsInto_of_scopeOfKind {source : String} {kind : Token} {e : ParseError}
    (hkind : TokenAt text kind) (hne : kind.isEmpty = false)
    (h : scopeOfKind source kind = .error e) : e.PointsInto text := by
  unfold scopeOfKind at h
  split at h
  · cases h
  · split at h
    · cases h
    · cases h
      exact hkind.word_or_quoted hne

theorem points_readAttribute (htail : ClosesGroup tail) (first : Token) :
    Points text tail (readAttribute first) fun _ => True := by
  have hproperty (scope : Scope) : Points text tail
      (do let property ← readWord; return (⟨scope, property.text⟩ : Attribute)) fun _ => True :=
    (points_readWord htail).bind fun _ _ => .pure trivial
  refine (points_expectDot htail first.text).bind fun _ _ => ?_
  split
  · exact hproperty .identity
  · refine (points_readWord htail).bind fun kind ⟨hkind, hne⟩ => ?_
    refine (points_expectDot htail kind.text).bind fun _ _ => ?_
    cases hscope : scopeOfKind first.text kind with
    | error e => exact .throw (pointsInto_of_scopeOfKind hkind hne hscope)
    | ok scope => exact hproperty scope

theorem points_readOperator (htail : ClosesGroup tail) :
    Points text tail readOperator fun _ => True := by
  refine (points_readWord htail).bind fun token ⟨htoken, hne⟩ => ?_
  split
  · exact .pure trivial
  · exact .throw (htoken.word_or_quoted hne)

/-! ## Lists of values -/

theorem points_readValue (htail : ClosesGroup tail) {opening : Nat} {rest : List Char}
    (hopening : StandsAt text opening ('(' :: rest)) (first : Bool) :
    Points text tail (readValue opening first) fun _ => True := by
  intro c hc
  unfold readValue
  dsimp only
  split
  · exact ⟨rest, hopening⟩
  · rename_i d hd
    split
    · exact ⟨rest, hopening⟩
    · split
      · rename_i hquote
        have hread := lands_readQuoted htail hquote hc.skipBlanks hd
        cases hresult : readQuoted d c.skipBlanks with
        | ok inner next =>
          rw [hresult] at hread
          exact ⟨trivial, hread.2⟩
        | error e stopped =>
          rw [hresult] at hread
          exact hread
      · exact ⟨trivial, hc.skipBlanks.skipWhile _⟩

theorem points_readAfterValue {opening : Nat} {rest : List Char}
    (hopening : StandsAt text opening ('(' :: rest)) :
    Points text tail (readAfterValue opening) fun _ => True := by
  intro c hc
  unfold readAfterValue
  dsimp only
  split
  · exact ⟨rest, hopening⟩
  · rename_i d hd
    split
    · exact ⟨trivial, hc.skipBlanks.advance⟩
    · split
      · exact ⟨trivial, hc.skipBlanks.advance⟩
      · exact ⟨_, hc.skipBlanks.current hd⟩

theorem points_readElement (htail : ClosesGroup tail) {opening : Nat} {rest : List Char}
    (hopening : StandsAt text opening ('(' :: rest)) (first : Bool) :
    Points text tail (readElement opening first) fun _ => True :=
  (points_readValue htail hopening first).bind fun _ _ =>
    (points_readAfterValue hopening).bind fun _ _ => .pure trivial

theorem points_readElements (htail : ClosesGroup tail) {opening : Nat} {rest : List Char}
    (hopening : StandsAt text opening ('(' :: rest)) (values : List String) :
    Points text tail (readElements opening values) fun _ => True := by
  intro c hc
  have hstep := points_readElement htail hopening
  fun_induction readElements opening values c with
  | case1 values c e stopped hel =>
    have hlands := hstep values.isEmpty c hc
    rwa [hel] at hlands
  | case2 values c value next hel =>
    have hlands := hstep values.isEmpty c hc
    rw [hel] at hlands
    exact ⟨trivial, hlands.2⟩
  | case3 values c value next hel ih =>
    have hlands := hstep values.isEmpty c hc
    rw [hel] at hlands
    exact ih hlands.2

theorem points_readLiteral (htail : ClosesGroup tail) :
    Points text tail readLiteral fun _ => True := by
  refine (points_readToken htail).bind fun token _ => ?_
  split
  · intro c hc
    rw [bind_get]
    split
    · rename_i hopen
      have hlist := points_readElements htail (hc.current hopen) [] c.advance hc.advance
      exact hlist.map fun _ _ => trivial
    · exact points_unexpected c hc
  · exact .pure trivial

theorem points_readComparison (htail : ClosesGroup tail) (first : Token) :
    Points text tail (readComparison first) fun _ => True :=
  (points_readAttribute htail first).bind fun _ _ =>
    (points_readOperator htail).bind fun _ _ =>
      (points_readLiteral htail).bind fun _ _ => .pure trivial

end Scan

/-! ## Groups -/

namespace GroupSearch

variable {text tail : List Char} {opening : Nat}

/-- One step of a search stays in the text, or fails at the parenthesis that opens or at a quote. -/
theorem pointsInto_of_step (htail : ClosesGroup tail) {rest : List Char} {s : GroupSearch}
    (hopening : StandsAt text opening ('(' :: rest)) (hs : s.cursor.In text tail) :
    (∀ next, s.step opening = .more next → next.cursor.In text tail) ∧
      ∀ e stopped, s.step opening = .failed e stopped → e.PointsInto text := by
  unfold step
  split
  · refine ⟨fun next h => (by cases h), fun e stopped h => ?_⟩
    cases h
    exact ⟨rest, hopening⟩
  · rename_i c hc
    split
    · refine ⟨fun next h => ?_, fun e stopped h => (by cases h)⟩
      cases h
      exact hs.advance
    · split
      · split
        · exact ⟨fun next h => (by cases h), fun e stopped h => (by cases h)⟩
        · refine ⟨fun next h => ?_, fun e stopped h => (by cases h)⟩
          cases h
          exact hs.advance
      · split
        · rename_i hquote
          rw [Bool.and_eq_true] at hquote
          have hlands := Scan.lands_readQuoted htail hquote.1 hs hc
          split
          · rename_i inner after hread
            rw [hread] at hlands
            refine ⟨fun next h => ?_, fun e stopped h => (by cases h)⟩
            cases h
            exact hlands.2
          · rename_i e stopped hread
            rw [hread] at hlands
            refine ⟨fun next h => (by cases h), fun e stopped h => ?_⟩
            cases h
            exact hlands
        · refine ⟨fun next h => ?_, fun e stopped h => (by cases h)⟩
          cases h
          exact hs.advance

theorem pointsInto_of_run (htail : ClosesGroup tail) {rest : List Char} {s : GroupSearch}
    {e : ParseError} {stopped : Cursor} (hopening : StandsAt text opening ('(' :: rest))
    (hs : s.cursor.In text tail) (h : s.run opening = .error e stopped) : e.PointsInto text := by
  fun_induction run opening s with
  | case1 s next hstep ih => exact ih ((pointsInto_of_step htail hopening hs).1 next hstep) h
  | case2 => cases h
  | case3 s e' stopped' hstep =>
    cases h
    exact (pointsInto_of_step htail hopening hs).2 e stopped hstep

end GroupSearch

namespace Scan

variable {text tail : List Char}

/-! ## Operands and connectives -/

/-- The inside of a group stands in the text, and a parenthesis follows it. -/
def OperandIn (text : List Char) : Operand → Prop
  | .comparison _ => True
  | .group inside => ∃ tail, ClosesGroup tail ∧ inside.In text tail

theorem lands_readGroup (htail : ClosesGroup tail) {c : Cursor} {rest : List Char}
    (hopening : StandsAt text (c.offset - 1) ('(' :: rest)) (hc : c.In text tail) :
    Lands text tail (fun inside => ∃ tail, ClosesGroup tail ∧ inside.In text tail)
      (readGroup c) := by
  obtain ⟨whole, offset⟩ := c
  cases hgroup : readGroup ⟨whole, offset⟩ with
  | ok inside next =>
    obtain ⟨inner, after, rfl, -, rfl, rfl⟩ := readGroup_eq_ok.1 hgroup
    have hsplit : inner ++ ')' :: after = inner ++ [')'] ++ after := by simp
    refine ⟨⟨')' :: (after ++ tail), closesGroup_cons _, ?_⟩, hc.moved hsplit⟩
    have hstands : StandsAt text offset (inner ++ ')' :: after ++ tail) := hc
    simpa [Cursor.In] using hstands
  | error e stopped =>
    unfold readGroup at hgroup
    split at hgroup
    · cases hgroup
    · rename_i hrun
      cases hgroup
      exact GroupSearch.pointsInto_of_run htail hopening hc hrun

theorem points_readOperand (htail : ClosesGroup tail) :
    Points text tail readOperand (OperandIn text) := by
  intro c hc
  unfold readOperand
  split
  · rename_i hopen
    have hopening : StandsAt text (c.advance.offset - 1) ('(' :: (c.advance.rest ++ tail)) := by
      obtain ⟨rest, offset⟩ := c
      cases rest with
      | nil => cases hopen
      | cons d rest =>
        obtain rfl : d = '(' := Option.some.inj hopen
        exact hc
    exact (lands_readGroup htail hopening hc.advance).map fun _ hinside => hinside
  · refine (points_readToken htail).bind (fun token _ => ?_) c hc
    split
    · exact points_unexpected
    · exact (points_readComparison htail token).map fun _ _ => trivial

/-- A connective stands as a word at the offset of its token. -/
theorem points_readConnective (htail : ClosesGroup tail) :
    Points text tail readConnective fun p => WordAt text p.2.offset p.2.text ∧ p.2.text ≠ "" := by
  refine (points_readToken htail).bind fun token htoken => ?_
  rcases htoken with ⟨hquoted, hword⟩ | ⟨hquoted, hword⟩
  · rw [hquoted]
    cases hop : Connective.ofKeyword? token.text with
    | none => exact .throw (.inl hword)
    | some op =>
      refine .pure ⟨hword, fun hempty => ?_⟩
      have hnone : Connective.ofKeyword? "" = none := by decide
      rw [hempty, hnone] at hop
      cases hop
  · rw [hquoted]
    exact .throw (.inr hword)

end Scan

/-! ## Levels -/

namespace Level

variable {text : List Char}

theorem pointsInto_of_finish {level : Level} {offset : Nat} {tail : List Char} {e : ParseError}
    (htail : ClosesGroup tail) (hend : StandsAt text offset tail)
    (h : level.finish offset = .error e) : e.PointsInto text := by
  unfold finish at h
  split at h
  · cases h
    trivial
  · split at h
    · cases h
      trivial
    · split at h
      · cases h
      · cases h
      · cases h
        refine .inl ⟨by simp, tail, hend, ?_⟩
        intro d hd
        rw [htail d hd]
        rfl

theorem pointsInto_of_join {level : Level} {op : Connective} {token : Token} {e : ParseError}
    (htoken : WordAt text token.offset token.text ∧ token.text ≠ "")
    (h : level.join op token = .error e) : e.PointsInto text := by
  unfold join at h
  split at h
  · cases h
  · split at h
    · cases h
    · cases h
      exact htoken

theorem pointsInto_of_parse_level {level : Level} {c : Cursor} {tail : List Char} {e : ParseError}
    (htail : ClosesGroup tail) (hc : c.In text tail) (h : level.parse c = .error e) :
    e.PointsInto text := by
  -- along the reading, with any tail: behind a group it is the rest of the level around it
  fun_induction parse level c generalizing tail with
  | case1 level c hend =>
    have hstands : StandsAt text c.skipBlanks.offset (c.skipBlanks.rest ++ tail) := hc.skipBlanks
    have hnil : c.skipBlanks.rest = [] := by simpa [Cursor.isAtEnd] using hend
    rw [hnil] at hstands
    exact pointsInto_of_finish htail hstands h
  | case2 level c hend hexpecting e' stopped hread =>
    cases h
    have hlands := Scan.points_readOperand htail c.skipBlanks hc.skipBlanks
    rwa [hread] at hlands
  | case3 level c hend hexpecting x next hread ih =>
    have hlands := Scan.points_readOperand htail c.skipBlanks hc.skipBlanks
    rw [hread] at hlands
    exact ih htail hlands.2 h
  | case4 level c hend hexpecting inside next hread e' hinside ih =>
    cases h
    have hlands := Scan.points_readOperand htail c.skipBlanks hc.skipBlanks
    rw [hread] at hlands
    obtain ⟨tail', htail', hin⟩ := hlands.1
    exact ih htail' hin hinside
  | case5 level c hend hexpecting inside next hread e' hinside _ ih =>
    have hlands := Scan.points_readOperand htail c.skipBlanks hc.skipBlanks
    rw [hread] at hlands
    exact ih htail hlands.2 h
  | case6 level c hend hexpecting e' stopped hread =>
    cases h
    have hlands := Scan.points_readConnective htail c.skipBlanks hc.skipBlanks
    rwa [hread] at hlands
  | case7 level c hend hexpecting op token next hread e' hjoin =>
    cases h
    have hlands := Scan.points_readConnective htail c.skipBlanks hc.skipBlanks
    rw [hread] at hlands
    exact pointsInto_of_join hlands.1 hjoin
  | case8 level c hend hexpecting op token next hread joined hjoin ih =>
    have hlands := Scan.points_readConnective htail c.skipBlanks hc.skipBlanks
    rw [hread] at hlands
    exact ih htail hlands.2 h

end Level

namespace Expression

/-- Errors point at the offending place of the text: an offset is no larger than the text and leads
to a character of it or to its end, and there stands what the error speaks of. -/
theorem pointsInto_of_parse {text : String} {e : ParseError} (h : parse text = .error e) :
    e.PointsInto text.toList ∧
      ∀ offset, e.offset? = some offset →
        offset ≤ byteLength text.toList ∧ ∃ rest, StandsAt text.toList offset rest := by
  have hc : (⟨text.toList, 0⟩ : Cursor).In text.toList [] :=
    ⟨[], (List.append_nil _).symm, byteLength_nil⟩
  have hpoints : e.PointsInto text.toList := Level.pointsInto_of_parse_level closesGroup_nil hc h
  refine ⟨hpoints, fun offset hoffset => ?_⟩
  obtain ⟨rest, hstands⟩ := hpoints.standsAt hoffset
  exact ⟨hstands.offset_le, rest, hstands⟩

/-- Two groups deep, behind characters of two and of four bytes. -/
theorem pointsInto_of_parse_nested :
    parse "(identity.é eq '😀' and (x.attribute.b ne 1 or (y.attribute.c 'can''t' z)))" =
        .error (.unknownOperator "can't" 65) ∧
      (.unknownOperator "can't" 65 : ParseError).PointsInto
        "(identity.é eq '😀' and (x.attribute.b ne 1 or (y.attribute.c 'can''t' z)))".toList :=
  have herror : parse "(identity.é eq '😀' and (x.attribute.b ne 1 or (y.attribute.c 'can''t' z)))" =
      .error (.unknownOperator "can't" 65) := by decide +kernel
  ⟨herror, (pointsInto_of_parse herror).1⟩

end Expression

end Eligibility
