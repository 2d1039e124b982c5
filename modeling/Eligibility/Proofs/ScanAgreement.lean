import Eligibility.Proofs.IndexedCursor

/-!
# Two cursors that agree

A cursor that holds the unread text and one that indexes the bytes of the whole text do the same:
where both stand at the same place (`IndexedCursor.Shows`), every scan of the indexed cursor has an
outcome, and it is that of the other scan (`IndexedScan.Agrees`). The two ends of a slice are found
at different times, but what stands between two places of a text is a part of it
(`StandsAt.between`), and so the slices are what the other scans have taken.
-/

namespace Eligibility

theorem byteLength_eq_zero {text : List Char} (h : byteLength text = 0) : text = [] := by
  cases text with
  | nil => rfl
  | cons c text =>
    have hpos := c.utf8Size_pos
    rw [byteLength_cons] at h
    omega

/-- What stands between two places of a text. -/
theorem StandsAt.between {text rest rest' : List Char} {start stop : Nat}
    (h : StandsAt text start rest) (h' : StandsAt text stop rest') (hle : start ≤ stop) :
    ∃ part, rest = part ++ rest' ∧ start + byteLength part = stop := by
  obtain ⟨before, rfl, rfl⟩ := h
  obtain ⟨before', htext, rfl⟩ := h'
  rcases List.append_eq_append_iff.1 htext with ⟨m, rfl, hrest⟩ | ⟨m, rfl, hrest⟩
  · exact ⟨m, hrest, (byteLength_append before m).symm⟩
  · rw [byteLength_append] at hle
    obtain rfl : m = [] := byteLength_eq_zero (by omega)
    exact ⟨[], hrest.symm, by simp⟩

namespace IndexedCursor

variable {b b' : IndexedCursor} {text rest : List Char}

/-! ## The unread text -/

/-- The text that is unread. -/
def Leaves (b : IndexedCursor) (rest : List Char) : Prop := StandsAt b.text.toList b.index rest

theorem Leaves.current? (h : b.Leaves rest) : b.current? = rest.head? := by
  unfold IndexedCursor.current?
  rw [dropBytes?_eq_some_iff.2 h, Option.bind_some]

theorem Leaves.isAtEnd (h : b.Leaves rest) : b.isAtEnd = rest.isEmpty := by
  unfold IndexedCursor.isAtEnd
  rw [h.current?]
  cases rest <;> rfl

theorem Leaves.advance {c : Char} (h : b.Leaves (c :: rest)) : b.advance.Leaves rest := by
  have hafter := StandsAt.after (w := [c]) h
  rw [advance_of_current? h.current?]
  simpa [Leaves] using hafter

theorem Leaves.index_eq (h : b.Leaves []) : b.index = b.text.utf8ByteSize := by
  obtain ⟨before, htext, hindex⟩ := h
  rw [← byteLength_toList, htext, List.append_nil, hindex]

theorem Leaves.index_le (h : b.Leaves rest) : b.index ≤ b.text.utf8ByteSize := by
  rw [← byteLength_toList]
  exact h.offset_le

theorem Leaves.eq_nil_iff (h : b.Leaves rest) : rest = [] ↔ b.index = b.text.utf8ByteSize := by
  constructor
  · rintro rfl
    exact h.index_eq
  · intro hindex
    obtain ⟨before, htext, hbefore⟩ := h
    rw [← byteLength_toList, htext, ← hbefore, byteLength_append] at hindex
    exact byteLength_eq_zero (by omega)

theorem Leaves.skipTo {stop : Char → Bool} (h : b.Leaves rest) :
    (b.skipTo stop).Leaves (rest.dropWhile (!stop ·)) := by
  fun_induction IndexedCursor.skipTo stop b generalizing rest with
  | case1 b c hc hstop =>
    obtain ⟨tail, rfl⟩ := List.head?_eq_some_iff.1 (h.current?.symm.trans hc)
    rwa [List.dropWhile_cons_of_neg (by simp [hstop])]
  | case2 b c hc hstop ih =>
    obtain ⟨tail, rfl⟩ := List.head?_eq_some_iff.1 (h.current?.symm.trans hc)
    rw [List.dropWhile_cons_of_pos (by simpa using hstop)]
    exact ih h.advance
  | case3 b hnone =>
    obtain rfl := List.head?_eq_none_iff.1 (h.current?.symm.trans hnone)
    exact h

/-- The slice between two positions is the text that is read from the one to the other. -/
theorem Leaves.slice?_eq {part : List Char} (h : b.Leaves (part ++ rest)) (h' : b'.Leaves rest)
    (hfollows : b.Follows b') :
    slice? b.text b.index b'.index = some (String.ofList part) := by
  have hstands : StandsAt b.text.toList b'.index rest := hfollows.text ▸ h'
  obtain ⟨part', hpart, hindex⟩ := StandsAt.between h hstands hfollows.index
  rw [List.append_cancel_right hpart, ← hindex]
  exact slice?_eq_some (hpart ▸ h)

/-! ## The same place -/

/-- Both cursors stand at the same place, with the same text before them. -/
structure Shows (b : IndexedCursor) (c : Cursor) : Prop where
  leaves : b.Leaves c.rest
  offset : b.offset = c.offset

namespace Shows

variable {c : Cursor}

theorem current? (h : b.Shows c) : b.current? = c.current? := h.leaves.current?

theorem isAtEnd (h : b.Shows c) : b.isAtEnd = c.isAtEnd := h.leaves.isAtEnd

/-- Where one cursor has moved on to, the other one stands too when it has read as much. -/
theorem moved {part : List Char} (h : b.Shows c) (hfollows : b.Follows b')
    (hleaves : b'.Leaves rest) (hrest : c.rest = part ++ rest) :
    b'.Shows ⟨rest, c.offset + byteLength part⟩ := by
  have hstands : StandsAt b.text.toList b'.index rest := hfollows.text ▸ hleaves
  obtain ⟨part', hpart, hindex⟩ := StandsAt.between h.leaves hstands hfollows.index
  obtain rfl := List.append_cancel_right (hrest.symm.trans hpart)
  refine ⟨hleaves, ?_⟩
  have hoffset := h.offset
  unfold IndexedCursor.offset at hoffset ⊢
  rw [hfollows.base]
  dsimp only
  omega

theorem advanceTo (h : b.Shows c) (hfollows : b.Follows b') (hleaves : b'.Leaves rest) :
    b'.Shows (c.advanceTo rest) := by
  have hstands : StandsAt b.text.toList b'.index rest := hfollows.text ▸ hleaves
  obtain ⟨part, hpart, -⟩ := StandsAt.between h.leaves hstands hfollows.index
  obtain ⟨unread, offset⟩ := c
  obtain rfl : unread = part ++ rest := hpart
  rw [Cursor.advanceTo_append]
  exact h.moved hfollows hleaves rfl

theorem advance (h : b.Shows c) : b.advance.Shows c.advance := by
  obtain ⟨rest, offset⟩ := c
  cases rest with
  | nil =>
    have hnone : b.current? = none := h.current?
    unfold IndexedCursor.advance
    rw [hnone]
    exact h
  | cons d rest =>
    have hmoved := h.moved b.follows_advance h.leaves.advance (List.singleton_append (x := d)).symm
    simpa using hmoved

theorem skipWhile (h : b.Shows c) (stop : Char → Bool) :
    (b.skipTo stop).Shows (c.skipWhile (!stop ·)) :=
  h.moved (b.follows_skipTo stop) h.leaves.skipTo List.takeWhile_append_dropWhile.symm

theorem skipBlanks (h : b.Shows c) : b.skipBlanks.Shows c.skipBlanks := by
  have hskip := h.skipWhile (!isBlank ·)
  simpa [IndexedCursor.skipBlanks, Cursor.skipBlanks] using hskip

end Shows

end IndexedCursor

/-! ## Scans that agree -/

/-- What a scan gives, and where it leaves the cursor, also when it fails. -/
def Scan.outcome {α : Type} (x : Scan α) (c : Cursor) : Except ParseError α × Cursor :=
  match x c with
  | .ok a next => (.ok a, next)
  | .error e stopped => (.error e, stopped)

namespace IndexedScan

variable {α β : Type} {b : IndexedCursor} {c : Cursor}

theorem bind_ok {y : IndexedScan α} {k : α → IndexedScan β} {b' : IndexedCursor} {a : α}
    (h : y b = some (.ok a, b')) : (y >>= k) b = k a b' := by
  simp [bind, ExceptT.bind, ExceptT.mk, ExceptT.bindCont, StateT.bind, h]

theorem bind_error {y : IndexedScan α} {k : α → IndexedScan β} {b' : IndexedCursor}
    {e : ParseError} (h : y b = some (.error e, b')) : (y >>= k) b = some (.error e, b') := by
  simp [bind, ExceptT.bind, ExceptT.mk, ExceptT.bindCont, StateT.bind, h]
  rfl

/-- From these two positions, the scan of the indexed cursor has an outcome, and it is that of the
other scan. -/
def AgreesAt (b : IndexedCursor) (c : Cursor) (y : IndexedScan α) (x : Scan α) : Prop :=
  ∃ b', y b = some ((x.outcome c).1, b') ∧ b.Follows b' ∧ b'.Shows (x.outcome c).2

/-- Wherever both cursors stand at the same place, the scans agree. -/
def Agrees (y : IndexedScan α) (x : Scan α) : Prop := ∀ b c, b.Shows c → AgreesAt b c y x

section AgreesAt

variable {x : Scan α} {y : IndexedScan α}

theorem AgreesAt.ok (a : α) {next : Cursor} {b' : IndexedCursor} (hx : x c = .ok a next)
    (hy : y b = some (.ok a, b')) (hfollows : b.Follows b') (hshows : b'.Shows next) :
    AgreesAt b c y x := by
  have houtcome : x.outcome c = (.ok a, next) := by
    unfold Scan.outcome
    rw [hx]
  refine ⟨b', ?_, hfollows, ?_⟩
  all_goals rw [houtcome]
  · exact hy
  · exact hshows

theorem AgreesAt.error (e : ParseError) {stopped : Cursor} {b' : IndexedCursor}
    (hx : x c = .error e stopped) (hy : y b = some (.error e, b')) (hfollows : b.Follows b')
    (hshows : b'.Shows stopped) : AgreesAt b c y x := by
  have houtcome : x.outcome c = (.error e, stopped) := by
    unfold Scan.outcome
    rw [hx]
  refine ⟨b', ?_, hfollows, ?_⟩
  all_goals rw [houtcome]
  · exact hy
  · exact hshows

/-- Where the two scans agree, both succeed or both fail. -/
theorem AgreesAt.cases (h : AgreesAt b c y x) :
    (∃ a next b', x c = .ok a next ∧ y b = some (.ok a, b') ∧ b.Follows b' ∧ b'.Shows next) ∨
      ∃ e stopped b', x c = .error e stopped ∧ y b = some (.error e, b') ∧ b.Follows b' ∧
        b'.Shows stopped := by
  obtain ⟨b', hy, hfollows, hshows⟩ := h
  unfold Scan.outcome at hy hshows
  cases hx : x c with
  | ok a next =>
    rw [hx] at hy hshows
    exact .inl ⟨a, next, b', rfl, hy, hfollows, hshows⟩
  | error e stopped =>
    rw [hx] at hy hshows
    exact .inr ⟨e, stopped, b', rfl, hy, hfollows, hshows⟩

theorem AgreesAt.bind {k : α → IndexedScan β} {l : α → Scan β} (h : AgreesAt b c y x)
    (hnext : ∀ a b' next, b'.Shows next → AgreesAt b' next (k a) (l a)) :
    AgreesAt b c (y >>= k) (x >>= l) := by
  rcases h.cases with ⟨a, next, b', hx, hy, hfollows, hshows⟩ | ⟨e, stopped, b', hx, hy, hrest⟩
  · rcases (hnext a b' next hshows).cases with
      ⟨a', last, b'', hx', hy', hfollows', hshows'⟩ | ⟨e, last, b'', hx', hy', hfollows', hshows'⟩
    · exact .ok a' ((Scan.bind_ok hx).trans hx') ((bind_ok hy).trans hy')
        (hfollows.trans hfollows') hshows'
    · exact .error e ((Scan.bind_ok hx).trans hx') ((bind_ok hy).trans hy')
        (hfollows.trans hfollows') hshows'
  · exact .error e (Scan.bind_error hx) (bind_error hy) hrest.1 hrest.2

theorem AgreesAt.pure (hshows : b.Shows c) (a : α) :
    AgreesAt b c (Pure.pure a : IndexedScan α) (Pure.pure a) :=
  .ok a rfl rfl (.refl b) hshows

theorem AgreesAt.get {k : IndexedCursor → IndexedScan α} {l : Cursor → Scan α}
    (h : AgreesAt b c (k b) (l c)) : AgreesAt b c (get >>= k) (get >>= l) := h

theorem Agrees.bind {k : α → IndexedScan β} {l : α → Scan β} (h : Agrees y x)
    (hnext : ∀ a, Agrees (k a) (l a)) : Agrees (y >>= k) (x >>= l) :=
  fun b c hshows => (h b c hshows).bind fun a => hnext a

theorem Agrees.map (h : Agrees y x) (f : α → β) : Agrees (f <$> y) (f <$> x) := by
  intro b c hshows
  rcases (h b c hshows).cases with ⟨a, next, b', hx, hy, hrest⟩ | ⟨e, stopped, b', hx, hy, hrest⟩
  · exact .ok (f a) (Scan.map_ok hx) (bind_ok hy) hrest.1 hrest.2
  · exact .error e (Scan.map_error hx) (bind_error hy) hrest.1 hrest.2

end AgreesAt

/-! ## Tokens -/

theorem agrees_skipSpace : Agrees skipSpace Scan.skipSpace := by
  intro b c h
  have hskip := h.skipBlanks
  have hend := hskip.isAtEnd
  cases hc : c.skipBlanks.isAtEnd with
  | true =>
    rw [hc] at hend
    exact .error .noToken (by simp [Scan.skipSpace, hc]) (by simp [skipSpace, hend])
      b.follows_skipBlanks hskip
  | false =>
    rw [hc] at hend
    exact .ok () (by simp [Scan.skipSpace, hc]) (by simp [skipSpace, hend]) b.follows_skipBlanks
      hskip

/-- The slice up to where a scan has come, or to the end of the text, is what the other scan has
taken. -/
theorem agrees_takeUntil (stop : Char → Bool) (required : Bool) :
    Agrees (takeUntil stop required) (Scan.takeUntil stop required) := by
  intro b c h
  have hfollows := b.follows_skipTo stop
  have hskip := h.skipWhile stop
  have hend := hskip.isAtEnd
  have hsplit : c.rest = c.rest.takeWhile (!stop ·) ++ (c.skipWhile (!stop ·)).rest :=
    List.takeWhile_append_dropWhile.symm
  have hslice := (hsplit ▸ h.leaves).slice?_eq hskip.leaves hfollows
  cases hc : (c.skipWhile (!stop ·)).isAtEnd with
  | true =>
    rw [hc] at hend
    have hnil : (c.skipWhile (!stop ·)).rest = [] := List.isEmpty_iff.1 hc
    have hindex := (hnil ▸ hskip.leaves).index_eq
    rw [hindex, hfollows.text] at hslice
    cases required with
    | true =>
      exact .error .noToken (by simp [Scan.takeUntil, hc]) (by simp [takeUntil, hend]) hfollows
        hskip
    | false =>
      exact .ok _ rfl (by simp [takeUntil, hend, hslice]) hfollows hskip
  | false =>
    rw [hc] at hend
    exact .ok (String.ofList (c.rest.takeWhile (!stop ·))) (by simp [Scan.takeUntil, hc])
      (by simp [takeUntil, hend, hslice]) hfollows hskip

/-! ## Quoted strings -/

theorem unquote_append_of_not_mem {quote : Char} {w : List Char} (hw : quote ∉ w)
    (rest : List Char) :
    unquote quote (w ++ rest) = (unquote quote rest).map fun p => (w ++ p.1, p.2) := by
  induction w with
  | nil => simp
  | cons d w ih =>
    have hd : d ≠ quote := fun heq => hw (heq ▸ List.mem_cons_self)
    have hrest : quote ∉ w := fun hmem => hw (List.mem_cons_of_mem d hmem)
    rw [List.cons_append, unquote_cons_of_ne hd, ih hrest, Option.map_map]
    rfl

theorem unquote_eq_none_of_not_mem {quote : Char} {text : List Char} (h : quote ∉ text) :
    unquote quote text = none := by
  have hunquote := unquote_append_of_not_mem h []
  rwa [List.append_nil] at hunquote

theorem unquote_quote_quote (quote : Char) (rest : List Char) :
    unquote quote (quote :: quote :: rest) =
      (unquote quote rest).map fun p => (quote :: p.1, p.2) := by
  simp [unquote]

/-- The text is read up to the next quote, if there is one. -/
theorem takeUntil_quote (quote : Char) {b : IndexedCursor} {text : List Char} (h : b.Leaves text) :
    (quote ∉ text ∧ ∃ next, takeUntil (· == quote) true b = some (.error .noToken, next) ∧
      next.Leaves []) ∨
    ∃ w after next, text = w ++ quote :: after ∧ quote ∉ w ∧
      takeUntil (· == quote) true b = some (.ok (String.ofList w), next) ∧
      next.Leaves (quote :: after) := by
  obtain ⟨next, hread, -, hshows⟩ :=
    agrees_takeUntil (· == quote) true b ⟨text, b.offset⟩ ⟨h, rfl⟩
  obtain ⟨hw, hafter⟩ := takeWhile_dropWhile (fun d => !(d == quote)) text
  have hsplit := List.takeWhile_append_dropWhile (p := fun d => !(d == quote)) (l := text)
  have hnot : quote ∉ text.takeWhile fun d => !(d == quote) := fun hmem => by
    simpa using hw quote hmem
  have hleaves := hshows.leaves
  cases hrest : text.dropWhile fun d => !(d == quote) with
  | nil =>
    rw [hrest, List.append_nil] at hsplit
    rw [hsplit] at hnot
    refine .inl ⟨hnot, next, ?_, ?_⟩
    · simpa [Scan.outcome, Scan.takeUntil, Cursor.skipWhile, Cursor.isAtEnd, hrest] using hread
    · simpa [Scan.outcome, Scan.takeUntil, Cursor.skipWhile, Cursor.isAtEnd, hrest] using hleaves
  | cons d after =>
    obtain rfl : d = quote := by simpa [hrest] using hafter
    rw [hrest] at hsplit
    refine .inr ⟨_, after, next, hsplit.symm, hnot, ?_, ?_⟩
    · simpa [Scan.outcome, Scan.takeUntil, Cursor.skipWhile, Cursor.isAtEnd, hrest] using hread
    · simpa [Scan.outcome, Scan.takeUntil, Cursor.skipWhile, Cursor.isAtEnd, hrest] using hleaves

theorem exists_part_of_takeUntil {quote : Char} {b next : IndexedCursor} {text : List Char}
    {part : String} (h : b.Leaves text)
    (hread : takeUntil (· == quote) true b = some (.ok part, next)) :
    ∃ w after, text = w ++ quote :: after ∧ quote ∉ w ∧ part = String.ofList w ∧
      next.Leaves (quote :: after) := by
  rcases takeUntil_quote quote h with
    ⟨-, _, hread', -⟩ | ⟨w, after, next, htext, hnot, hread', hleaves⟩
  all_goals
    rw [hread] at hread'
    cases hread'
  exact ⟨w, after, htext, hnot, rfl, hleaves⟩

/-- The parts of a quoted string that are read one after the other come to the whole string. -/
theorem agrees_readInside (quote : Char) (opening : Nat) (before : String) {b : IndexedCursor}
    {text : List Char} (h : b.Leaves text) :
    (∃ inner rest b', unquote quote text = some (inner, rest) ∧ b'.Leaves rest ∧
      readInside quote opening before b = some (.ok (before ++ String.ofList inner), b')) ∨
    ∃ b', unquote quote text = none ∧ b'.Leaves [] ∧
      readInside quote opening before b = some (.error (.unmatchedQuote quote opening), b') := by
  fun_induction readInside quote opening before b generalizing text with
  | case1 before b hread =>
    rcases takeUntil_quote quote h with ⟨-, _, hread', -⟩ | ⟨_, _, _, -, -, hread', -⟩
    all_goals
      rw [hread] at hread'
      cases hread'
  | case2 before b e stopped hread =>
    rcases takeUntil_quote quote h with ⟨hnot, next, hread', hleaves⟩ | ⟨_, _, _, -, -, hread', -⟩
    all_goals
      rw [hread] at hread'
      cases hread'
    exact .inr ⟨_, unquote_eq_none_of_not_mem hnot, hleaves, rfl⟩
  | case3 before b part closing hread hquote ih =>
    obtain ⟨w, after, rfl, hnot, rfl, hleaves⟩ := exists_part_of_takeUntil h hread
    have hadvance := hleaves.advance
    obtain ⟨tail, rfl⟩ := List.head?_eq_some_iff.1 (hadvance.current?.symm.trans hquote)
    rw [unquote_append_of_not_mem hnot, unquote_quote_quote, Option.map_map]
    rcases ih hadvance.advance with ⟨inner, rest, b', hinner, hrest, hinside⟩ | ⟨b', hnone, hrest⟩
    · refine .inl ⟨w ++ quote :: inner, rest, b', by simp [hinner], hrest, ?_⟩
      rw [hinside]
      simp only [String.ofList_append, String.ofList_cons, String.append_assoc]
    · exact .inr ⟨b', by simp [hnone], hrest⟩
  | case4 before b part closing hread hquote =>
    obtain ⟨w, after, rfl, hnot, rfl, hleaves⟩ := exists_part_of_takeUntil h hread
    have hadvance := hleaves.advance
    have hafter : after.head? ≠ some quote := fun heq => hquote (hadvance.current?.trans heq)
    refine .inl ⟨w, after, _, ?_, hadvance, rfl⟩
    rw [unquote_append_of_not_mem hnot, unquote_closing hafter]
    simp

theorem agrees_readQuoted (quote : Char) : Agrees (readQuoted quote) (Scan.readQuoted quote) := by
  intro b c h
  have hadvance := h.advance
  have hread : readQuoted quote b = readInside quote b.offset "" b.advance := rfl
  rcases agrees_readInside quote b.offset "" hadvance.leaves with
    ⟨inner, rest, b', hinner, hleaves, hinside⟩ | ⟨b', hnone, hleaves, hinside⟩
  · have hfollows := b.follows_advance.trans (follows_of_readInside hinside)
    refine .ok (String.ofList inner) ?_ ?_ hfollows (h.advanceTo hfollows hleaves)
    · simp [Scan.readQuoted, hinner]
    · rw [hread, hinside, String.empty_append]
  · have hfollows := b.follows_advance.trans (follows_of_readInside hinside)
    refine .error (.unmatchedQuote quote c.offset) ?_ ?_ hfollows (h.advanceTo hfollows hleaves)
    · simp [Scan.readQuoted, hnone, Cursor.toEnd]
    · rw [hread, hinside, h.offset]

theorem agrees_readToken : Agrees readToken Scan.readToken := by
  refine agrees_skipSpace.bind fun _ b c h => .get ?_
  rw [h.current?, h.offset]
  cases c.current?.filter isQuote with
  | some quote => exact (agrees_readQuoted quote b c h).bind fun _ _ _ h' => .pure h' _
  | none =>
    exact (agrees_takeUntil isDelimiter false b c h).bind fun _ _ _ h' => .pure h' _

/-! ## Groups -/

section Groups

variable {start opening depth : Nat} {previous : Option Char} {d : Char}

theorem closeGroup_atEnd (h : b.current? = none) :
    closeGroup start opening depth previous b =
      some (.error (.unmatchedParenthesis opening), b) := by
  rw [closeGroup]
  split
  · rfl
  · rename_i d hd
    rw [h] at hd
    cases hd

theorem closeGroup_at (start opening depth : Nat) (previous : Option Char)
    (h : b.current? = some d) :
    closeGroup start opening depth previous b =
      if d = '(' then closeGroup start opening (depth + 1) (some d) b.advance
      else if d = ')' then
        if depth = 0 then none
        else if depth - 1 = 0 then
          (slice? b.text start b.index).map fun text => (.ok (b.base + start, text), b.advance)
        else closeGroup start opening (depth - 1) (some d) b.advance
      else if isQuote d && GroupSearch.mayQuoteAfter previous then
        match readQuoted d b with
        | none => none
        | some (.error e, stopped) => some (.error e, stopped)
        | some (.ok _, next) => closeGroup start opening depth (some d) next
      else closeGroup start opening depth (some d) b.advance := by
  rw [closeGroup]
  split
  · rename_i hnone
    rw [h] at hnone
    cases hnone
  · rename_i d' hd
    obtain rfl : d = d' := Option.some.inj (h.symm.trans hd)
    congr 3
    split
    all_goals simp only [*]

/-- What one step of the search comes to with the indexed cursor. -/
def StepsAlike (start opening : Nat) (s : GroupSearch) (b : IndexedCursor) :
    GroupSearch.Outcome → Prop
  | .more next => 0 < next.depth ∧ ∃ b', b.Follows b' ∧ b'.Shows next.cursor ∧
      closeGroup start opening s.depth s.previous b =
        closeGroup start opening next.depth next.previous b'
  | .found closing => b.Shows closing ∧ closeGroup start opening s.depth s.previous b =
      (slice? b.text start b.index).map fun text => (.ok (b.base + start, text), b.advance)
  | .failed e stopped => ∃ b', b.Follows b' ∧ b'.Shows stopped ∧
      closeGroup start opening s.depth s.previous b = some (.error e, b')

/-- A step of the search finds at least one parenthesis open, and leaves one open if it goes on. -/
theorem stepsAlike {s : GroupSearch} (start opening : Nat) (h : b.Shows s.cursor)
    (hdepth : 0 < s.depth) : StepsAlike start opening s b (s.step opening) := by
  have hadvance := h.advance
  have hfollows := b.follows_advance
  unfold GroupSearch.step
  cases hc : s.cursor.current? with
  | none =>
    exact ⟨b, .refl b, h, closeGroup_atEnd (h.current?.trans hc)⟩
  | some d =>
    have hclose := closeGroup_at start opening s.depth s.previous (h.current?.trans hc)
    dsimp only
    split
    · rename_i hopen
      rw [if_pos hopen] at hclose
      exact ⟨Nat.succ_pos _, b.advance, hfollows, hadvance, hclose⟩
    · rename_i hopen
      rw [if_neg hopen] at hclose
      split
      · rename_i hclosing
        rw [if_pos hclosing, if_neg (Nat.ne_of_gt hdepth)] at hclose
        split
        · rename_i hlast
          rw [if_pos hlast] at hclose
          exact ⟨h, hclose⟩
        · rename_i hlast
          rw [if_neg hlast] at hclose
          exact ⟨Nat.pos_of_ne_zero hlast, b.advance, hfollows, hadvance, hclose⟩
      · rename_i hclosing
        rw [if_neg hclosing] at hclose
        split
        · rename_i hquote
          rw [if_pos hquote] at hclose
          rcases (agrees_readQuoted d b s.cursor h).cases with
            ⟨text, next, b', hread, hread', hrest⟩ | ⟨e, stopped, b', hread, hread', hrest⟩
          · rw [hread'] at hclose
            rw [hread]
            exact ⟨hdepth, b', hrest.1, hrest.2, hclose⟩
          · rw [hread'] at hclose
            rw [hread]
            exact ⟨b', hrest.1, hrest.2, hclose⟩
        · rename_i hquote
          rw [if_neg hquote] at hclose
          exact ⟨hdepth, b.advance, hfollows, hadvance, hclose⟩

/-- The text from where a group begins up to where the search has come is a slice, whenever the
search comes there. -/
theorem closeGroup_run (opening : Nat) {s : GroupSearch} {b₀ : IndexedCursor} {c₀ : Cursor}
    (h₀ : b₀.Shows c₀) (hfollows : b₀.Follows b) (h : b.Shows s.cursor) (hdepth : 0 < s.depth) :
    match s.run opening with
    | .ok closing _ => ∃ b', closeGroup b₀.index opening s.depth s.previous b =
        some (.ok (c₀.offset,
          String.ofList (c₀.rest.take (c₀.rest.length - closing.rest.length))), b') ∧
        b₀.Follows b' ∧ b'.Shows closing.advance
    | .error e stopped => ∃ b', closeGroup b₀.index opening s.depth s.previous b =
        some (.error e, b') ∧ b₀.Follows b' ∧ b'.Shows stopped := by
  fun_induction GroupSearch.run opening s generalizing b with
  | case1 s next hstep ih =>
    have halike := stepsAlike b₀.index opening h hdepth
    rw [hstep] at halike
    obtain ⟨hnext, b', hfollows', h', hclose⟩ := halike
    rw [hclose]
    exact ih (hfollows.trans hfollows') h' hnext
  | case2 s closing hstep =>
    have halike := stepsAlike b₀.index opening h hdepth
    rw [hstep] at halike
    obtain ⟨h', hclose⟩ := halike
    have hleaves : StandsAt b₀.text.toList b.index closing.rest := hfollows.text ▸ h'.leaves
    obtain ⟨part, hpart, -⟩ := StandsAt.between h₀.leaves hleaves hfollows.index
    have hslice := (hpart ▸ h₀.leaves).slice?_eq h'.leaves hfollows
    have hoffset : b.base + b₀.index = c₀.offset := by rw [hfollows.base, ← h₀.offset]; rfl
    have htake : c₀.rest.take (c₀.rest.length - closing.rest.length) = part := by
      rw [hpart, List.length_append, Nat.add_sub_cancel, List.take_left]
    refine ⟨b.advance, ?_, hfollows.trans b.follows_advance, h'.advance⟩
    rw [hclose, hfollows.text, hslice, hoffset, htake, Option.map_some]
  | case3 s e stopped hstep =>
    have halike := stepsAlike b₀.index opening h hdepth
    rw [hstep] at halike
    obtain ⟨b', hfollows', h', hclose⟩ := halike
    exact ⟨b', hclose, hfollows.trans hfollows', h'⟩

end Groups

theorem agrees_readGroup : Agrees readGroup
    ((fun inside : Cursor => (inside.offset, String.ofList inside.rest)) <$> Scan.readGroup) := by
  intro b c h
  have hrun := closeGroup_run (c.offset - 1) (s := .start c) h (.refl b) h Nat.one_pos
  have hread : readGroup b = closeGroup b.index (b.offset - 1) 1 none b := rfl
  rw [h.offset] at hread
  cases hresult : (GroupSearch.start c).run (c.offset - 1) with
  | ok closing after =>
    rw [hresult] at hrun
    obtain ⟨b', hclose, hfollows, hshows⟩ := hrun
    have hgroup : Scan.readGroup c = .ok
        ⟨c.rest.take (c.rest.length - closing.rest.length), c.offset⟩ closing.advance := by
      unfold Scan.readGroup
      rw [hresult]
    exact .ok _ (Scan.map_ok hgroup) (hread.trans hclose) hfollows hshows
  | error e stopped =>
    rw [hresult] at hrun
    obtain ⟨b', hclose, hfollows, hshows⟩ := hrun
    have hgroup : Scan.readGroup c = .error e stopped := by
      unfold Scan.readGroup
      rw [hresult]
    exact .error e (Scan.map_error hgroup) (hread.trans hclose) hfollows hshows

end IndexedScan

end Eligibility
