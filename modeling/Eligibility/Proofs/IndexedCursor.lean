import Eligibility.Proofs.ErrorPlaces

/-!
# Cursors that index the bytes of a text

A cursor as the byte index into a text that stays whole. Here nothing is defined that needs the
index to be right: a slice is cut out only between two bytes at which characters begin, in this
order and not behind the end of the text (`slice?`), and the count of open parentheses is lowered
only if one is open. An `IndexedScan` that needs either and does not get it has no outcome at all,
in contrast to one that ends with an error.
-/

namespace Eligibility

/-! ## Slices of a text -/

/-- What is left of a text behind a number of bytes. They must be those of whole characters. -/
def dropBytes? : Nat → List Char → Option (List Char)
  | 0, text => some text
  | _ + 1, [] => none
  | bytes + 1, c :: text =>
    if c.utf8Size ≤ bytes + 1 then dropBytes? (bytes + 1 - c.utf8Size) text else none

/-- A number of bytes at the start of a text. They must be those of whole characters. -/
def takeBytes? : Nat → List Char → Option (List Char)
  | 0, _ => some []
  | _ + 1, [] => none
  | bytes + 1, c :: text =>
    if c.utf8Size ≤ bytes + 1 then (takeBytes? (bytes + 1 - c.utf8Size) text).map (c :: ·) else none

/-- The part of a text from one byte up to another. -/
def slice? (text : String) (start stop : Nat) : Option String :=
  if start ≤ stop then do
    let rest ← dropBytes? start text.toList
    let part ← takeBytes? (stop - start) rest
    return String.ofList part
  else none

theorem dropBytes?_append (before rest : List Char) :
    dropBytes? (byteLength before) (before ++ rest) = some rest := by
  induction before with
  | nil => simp [dropBytes?]
  | cons c before ih =>
    obtain ⟨bytes, hbytes⟩ : ∃ bytes, byteLength (c :: before) = bytes + 1 :=
      Nat.exists_eq_succ_of_ne_zero (by simp [Nat.ne_of_gt c.utf8Size_pos])
    rw [hbytes, List.cons_append, dropBytes?, ← hbytes, byteLength_cons,
      if_pos (Nat.le_add_right _ _), Nat.add_sub_cancel_left, ih]

theorem takeBytes?_append (part rest : List Char) :
    takeBytes? (byteLength part) (part ++ rest) = some part := by
  induction part with
  | nil => simp [takeBytes?]
  | cons c part ih =>
    obtain ⟨bytes, hbytes⟩ : ∃ bytes, byteLength (c :: part) = bytes + 1 :=
      Nat.exists_eq_succ_of_ne_zero (by simp [Nat.ne_of_gt c.utf8Size_pos])
    rw [hbytes, List.cons_append, takeBytes?, ← hbytes, byteLength_cons,
      if_pos (Nat.le_add_right _ _), Nat.add_sub_cancel_left, ih, Option.map_some]

theorem standsAt_of_dropBytes? {text rest : List Char} {index : Nat}
    (h : dropBytes? index text = some rest) : StandsAt text index rest := by
  induction text generalizing index with
  | nil =>
    cases index with
    | zero => cases h; exact ⟨[], rfl, rfl⟩
    | succ index => cases h
  | cons c text ih =>
    cases index with
    | zero => cases h; exact ⟨[], rfl, rfl⟩
    | succ index =>
      rw [dropBytes?] at h
      split at h
      · rename_i hsize
        obtain ⟨before, rfl, hbefore⟩ := ih h
        exact ⟨c :: before, rfl, by rw [byteLength_cons, hbefore]; omega⟩
      · cases h

/-- What is left of a text behind a number of bytes stands there. -/
theorem dropBytes?_eq_some_iff {text rest : List Char} {index : Nat} :
    dropBytes? index text = some rest ↔ StandsAt text index rest := by
  refine ⟨standsAt_of_dropBytes?, ?_⟩
  rintro ⟨before, rfl, rfl⟩
  exact dropBytes?_append before rest

/-- A part that stands in a text is a slice of it. -/
theorem slice?_eq_some {text : String} {part rest : List Char} {start : Nat}
    (h : StandsAt text.toList start (part ++ rest)) :
    slice? text start (start + byteLength part) = some (String.ofList part) := by
  rw [slice?, if_pos (Nat.le_add_right _ _), dropBytes?_eq_some_iff.2 h]
  simp [takeBytes?_append]

theorem utf8ByteSize_ofList (text : List Char) :
    (String.ofList text).utf8ByteSize = byteLength text := by
  induction text with
  | nil => rfl
  | cons c text ih =>
    rw [String.ofList_cons, String.utf8ByteSize_append, String.utf8ByteSize_singleton, ih,
      byteLength_cons]

theorem byteLength_toList (text : String) : byteLength text.toList = text.utf8ByteSize := by
  rw [← utf8ByteSize_ofList, String.ofList_toList]

/-- Where something stands in a text, a character of the text begins or the text ends. -/
theorem StandsAt.isValid {text : String} {index : Nat} {rest : List Char}
    (h : StandsAt text.toList index rest) : (⟨index⟩ : String.Pos.Raw).IsValid text := by
  obtain ⟨before, htext, rfl⟩ := h
  refine String.Pos.Raw.isValid_iff_exists_append.2
    ⟨String.ofList before, String.ofList rest, ?_, ?_⟩
  · rw [← String.ofList_append, ← htext, String.ofList_toList]
  · rw [← utf8ByteSize_ofList, ← String.byteIdx_rawEndPos]

/-! ## Cursors -/

/-- A position in a text, as an index. -/
structure IndexedCursor where
  /-- The whole text. -/
  text : String
  /-- The byte index of the position in the text. -/
  index : Nat
  /-- The byte offset of the text in the whole rule text. -/
  base : Nat

namespace IndexedCursor

/-- The cursor at the start of a text. -/
def start (text : String) (base : Nat) : IndexedCursor := ⟨text, 0, base⟩

/-- The byte offset of the position in the whole rule text. -/
def offset (b : IndexedCursor) : Nat := b.base + b.index

/-- The character under the cursor, none at the end of the text. -/
def current? (b : IndexedCursor) : Option Char :=
  (dropBytes? b.index b.text.toList).bind List.head?

/-- Whether there is no character under the cursor. -/
def isAtEnd (b : IndexedCursor) : Bool := b.current?.isNone

/-- Moves past one character, and stays at the end of the text. -/
def advance (b : IndexedCursor) : IndexedCursor :=
  match b.current? with
  | some c => { b with index := b.index + c.utf8Size }
  | none => b

/-- The number of bytes from the position to the end of the text. -/
def remaining (b : IndexedCursor) : Nat := b.text.utf8ByteSize - b.index

variable {b b' b'' : IndexedCursor} {c : Char}

theorem advance_of_current? (h : b.current? = some c) :
    b.advance = { b with index := b.index + c.utf8Size } := by
  unfold advance
  rw [h]

/-- A character under the cursor does not reach beyond the end of the text. -/
theorem index_add_le (h : b.current? = some c) : b.index + c.utf8Size ≤ b.text.utf8ByteSize := by
  obtain ⟨rest, hrest, hc⟩ := Option.bind_eq_some_iff.1 h
  obtain ⟨tail, rfl⟩ := List.head?_eq_some_iff.1 hc
  obtain ⟨before, htext, hindex⟩ := dropBytes?_eq_some_iff.1 hrest
  rw [← byteLength_toList, htext, ← hindex, byteLength_append, byteLength_cons]
  omega

theorem remaining_advance_lt (h : b.current? = some c) : b.advance.remaining < b.remaining := by
  have hle := index_add_le h
  have hpos := c.utf8Size_pos
  rw [advance_of_current? h]
  unfold remaining
  dsimp only
  omega

/-- The second cursor stands in the text of the first, and not before it. -/
structure Follows (b b' : IndexedCursor) : Prop where
  text : b'.text = b.text
  base : b'.base = b.base
  index : b.index ≤ b'.index

namespace Follows

theorem refl (b : IndexedCursor) : Follows b b := ⟨rfl, rfl, Nat.le_refl _⟩

theorem trans (h : Follows b b') (h' : Follows b' b'') : Follows b b'' :=
  ⟨h'.text.trans h.text, h'.base.trans h.base, Nat.le_trans h.index h'.index⟩

theorem remaining_le (h : Follows b b') : b'.remaining ≤ b.remaining := by
  unfold remaining
  rw [h.text]
  exact Nat.sub_le_sub_left h.index _

end Follows

theorem follows_advance (b : IndexedCursor) : Follows b b.advance := by
  unfold advance
  split
  · exact ⟨rfl, rfl, Nat.le_add_right _ _⟩
  · exact .refl b

/-- Moves up to the first character that satisfies a condition, or to the end of the text. -/
def skipTo (stop : Char → Bool) (b : IndexedCursor) : IndexedCursor :=
  match _h : b.current? with
  | some c => if stop c then b else skipTo stop b.advance
  | none => b
termination_by b.remaining
decreasing_by exact remaining_advance_lt _h

/-- Moves over blanks. -/
def skipBlanks (b : IndexedCursor) : IndexedCursor := b.skipTo (!isBlank ·)

theorem follows_skipTo (stop : Char → Bool) (b : IndexedCursor) : Follows b (b.skipTo stop) := by
  fun_induction skipTo stop b with
  | case1 => exact .refl _
  | case2 b c _ _ ih => exact (follows_advance b).trans ih
  | case3 => exact .refl _

theorem follows_skipBlanks (b : IndexedCursor) : Follows b b.skipBlanks := b.follows_skipTo _

end IndexedCursor

/-! ## Scans -/

/-- A computation that reads from an indexed cursor. It may fail, with the cursor where reading
stopped, or have no outcome. -/
abbrev IndexedScan (α : Type) := ExceptT ParseError (StateT IndexedCursor Option) α

namespace IndexedScan

/-- Moves over blanks, and fails if nothing follows them. -/
def skipSpace : IndexedScan Unit := fun b =>
  let next := b.skipBlanks
  if next.isAtEnd then some (.error .noToken, next) else some (.ok (), next)

/-- Reads up to the first character that satisfies a condition. If the text has none, all of it is
read; this is a failure if such a character is required. -/
def takeUntil (stop : Char → Bool) (required : Bool) : IndexedScan String := fun b =>
  let next := b.skipTo stop
  if next.isAtEnd then
    if required then some (.error .noToken, next)
    else (slice? b.text b.index b.text.utf8ByteSize).map fun text => (.ok text, next)
  else (slice? b.text b.index next.index).map fun text => (.ok text, next)

theorem follows_of_takeUntil {stop : Char → Bool} {required : Bool} {b next : IndexedCursor}
    {result : Except ParseError String} (h : takeUntil stop required b = some (result, next)) :
    b.Follows next := by
  have hnext : next = b.skipTo stop := by
    unfold takeUntil at h
    dsimp only at h
    split at h
    · split at h
      · exact (Prod.mk.inj (Option.some.inj h)).2.symm
      · obtain ⟨text, -, heq⟩ := Option.map_eq_some_iff.1 h
        exact (Prod.mk.inj heq).2.symm
    · obtain ⟨text, -, heq⟩ := Option.map_eq_some_iff.1 h
      exact (Prod.mk.inj heq).2.symm
  rw [hnext]
  exact b.follows_skipTo stop

/-- Reads a quoted string up to its closing quote, behind what has been read of it. The quote closes
the string unless another one follows, and the two are one quote inside of it. -/
def readInside (quote : Char) (opening : Nat) (before : String) : IndexedScan String := fun b =>
  match _h : takeUntil (· == quote) true b with
  | none => none
  | some (.error _, next) => some (.error (.unmatchedQuote quote opening), next)
  | some (.ok part, next) =>
    if _hquote : next.advance.current? = some quote then
      readInside quote opening (before ++ part ++ String.singleton quote) next.advance.advance
    else some (.ok (before ++ part), next.advance)
termination_by b => b.remaining
decreasing_by
  have hnext := (follows_of_takeUntil _h).trans next.follows_advance
  exact Nat.lt_of_lt_of_le (IndexedCursor.remaining_advance_lt _hquote) hnext.remaining_le

/-- Reads a quoted string, with the cursor on its opening quote. -/
def readQuoted (quote : Char) : IndexedScan String := do
  let opening ← get
  modify IndexedCursor.advance
  readInside quote opening.offset ""

/-- Reads the next token. -/
def readToken : IndexedScan Token := do
  skipSpace
  let start ← get
  match start.current?.filter isQuote with
  | some quote =>
    let text ← readQuoted quote
    return ⟨text, true, start.offset⟩
  | none =>
    let text ← takeUntil isDelimiter false
    return ⟨text, false, start.offset⟩

theorem follows_of_readInside {quote : Char} {opening : Nat} {before : String}
    {b next : IndexedCursor} {result : Except ParseError String}
    (h : readInside quote opening before b = some (result, next)) : b.Follows next := by
  fun_induction readInside quote opening before b with
  | case1 => cases h
  | case2 before b e stopped hread =>
    cases h
    exact follows_of_takeUntil hread
  | case3 before b part closing hread hquote ih =>
    exact (follows_of_takeUntil hread).trans
      (closing.follows_advance.trans (closing.advance.follows_advance.trans (ih h)))
  | case4 before b part closing hread hquote =>
    cases h
    exact (follows_of_takeUntil hread).trans closing.follows_advance

/-- A quoted string has at least an opening quote. -/
theorem follows_of_readQuoted {quote : Char} {b next : IndexedCursor}
    {result : Except ParseError String} (h : readQuoted quote b = some (result, next)) :
    b.advance.Follows next :=
  follows_of_readInside h

/-- Searches for the parenthesis that closes a group, with the count of open parentheses and the
character before the cursor. Gives the offset and the text of the group. -/
def closeGroup (start opening depth : Nat) (previous : Option Char) :
    IndexedScan (Nat × String) := fun b =>
  match _h : b.current? with
  | none => some (.error (.unmatchedParenthesis opening), b)
  | some c =>
    if c = '(' then closeGroup start opening (depth + 1) (some c) b.advance
    else if c = ')' then
      if depth = 0 then none
      else if depth - 1 = 0 then
        (slice? b.text start b.index).map fun text => (.ok (b.base + start, text), b.advance)
      else closeGroup start opening (depth - 1) (some c) b.advance
    else if isQuote c && GroupSearch.mayQuoteAfter previous then
      match _hread : readQuoted c b with
      | none => none
      | some (.error e, stopped) => some (.error e, stopped)
      | some (.ok _, next) => closeGroup start opening depth (some c) next
    else closeGroup start opening depth (some c) b.advance
termination_by b => b.remaining
decreasing_by
  · exact IndexedCursor.remaining_advance_lt _h
  · exact IndexedCursor.remaining_advance_lt _h
  · exact Nat.lt_of_le_of_lt (follows_of_readQuoted _hread).remaining_le
      (IndexedCursor.remaining_advance_lt _h)
  · exact IndexedCursor.remaining_advance_lt _h

/-- Reads a group, with the cursor after its opening parenthesis. -/
def readGroup : IndexedScan (Nat × String) := do
  let start ← get
  closeGroup start.index (start.offset - 1) 1 none

end IndexedScan

end Eligibility
