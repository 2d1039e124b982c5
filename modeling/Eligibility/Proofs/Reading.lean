import Eligibility.Expression.Parser
import Eligibility.Proofs.Quoting
import Eligibility.Proofs.Stretches

/-!
# What a scan reads

`Scan.Reads` says of a scan which text it reads, and what it makes of it, independent of where the
text stands and of what follows it. Scans in sequence read texts in sequence, so that the reading
of a whole comparison is put together from the reading of its tokens.

Tokens have to be kept apart: a token without quotes goes on until a delimiter, and so does, for the
texts considered here, a token with quotes (`EndsToken`).
-/

namespace Eligibility

/-- A text that consists of blanks. -/
def AllBlank (text : List Char) : Prop := ∀ c ∈ text, isBlank c = true

@[simp] theorem allBlank_nil : AllBlank [] := by simp [AllBlank]

theorem allBlank_space : AllBlank [' '] := by simp [AllBlank, isBlank]

/-- A text before which a token may end: it is empty or begins with a delimiter. -/
def EndsToken (rest : List Char) : Prop := ∀ c ∈ rest.head?, isDelimiter c = true

@[simp] theorem endsToken_nil : EndsToken [] := by simp [EndsToken]

@[simp] theorem endsToken_cons {c : Char} {rest : List Char} :
    EndsToken (c :: rest) ↔ isDelimiter c = true := by
  simp [EndsToken]

/-- Blanks end a token, and so does what ends it without them. -/
theorem EndsToken.blanks {blanks : List Char} (hblanks : AllBlank blanks) {rest : List Char}
    (h : blanks ≠ [] ∨ EndsToken rest) : EndsToken (blanks ++ rest) := by
  cases blanks with
  | nil => simpa using h
  | cons c blanks => exact endsToken_cons.2 (isDelimiter_of_isBlank (hblanks c List.mem_cons_self))

theorem AllBlank.endsToken {blanks : List Char} (h : AllBlank blanks) : EndsToken blanks := by
  simpa using EndsToken.blanks h (.inr endsToken_nil)

theorem EndsToken.head?_ne {rest : List Char} {quote : Char} (h : EndsToken rest)
    (hquote : isQuote quote = true) : rest.head? ≠ some quote := by
  intro hhead
  have hdelimiter := h quote hhead
  rw [not_isQuote_of_isDelimiter hdelimiter] at hquote
  cases hquote

namespace Cursor

/-! ## Moving over a stretch of text -/

theorem skipWhile_append {p : Char → Bool} {text rest : List Char}
    (htext : ∀ c ∈ text, p c = true) (hrest : ∀ c ∈ rest.head?, p c = false) (offset : Nat) :
    (⟨text ++ rest, offset⟩ : Cursor).skipWhile p = ⟨rest, offset + byteLength text⟩ := by
  rw [skipWhile, dropWhile_stretch htext hrest, takeWhile_stretch htext hrest]

theorem skipBlanks_append {blanks : List Char} (hblanks : AllBlank blanks) (rest : List Char)
    (hrest : ∀ c ∈ rest.head?, isBlank c = false) (offset : Nat) :
    (⟨blanks ++ rest, offset⟩ : Cursor).skipBlanks = ⟨rest, offset + byteLength blanks⟩ :=
  skipWhile_append hblanks hrest offset

theorem skipBlanks_of_head {rest : List Char} (hrest : ∀ c ∈ rest.head?, isBlank c = false)
    (offset : Nat) : (⟨rest, offset⟩ : Cursor).skipBlanks = ⟨rest, offset⟩ := by
  simpa using skipBlanks_append allBlank_nil rest hrest offset

/-- Blanks are moved over one stretch after the other. -/
theorem skipBlanks_blanks {blanks : List Char} (hblanks : AllBlank blanks) (rest : List Char)
    (offset : Nat) :
    (⟨blanks ++ rest, offset⟩ : Cursor).skipBlanks =
      (⟨rest, offset + byteLength blanks⟩ : Cursor).skipBlanks := by
  simp only [skipBlanks, skipWhile, List.dropWhile_append_of_pos hblanks,
    List.takeWhile_append_of_pos hblanks, byteLength_append, Nat.add_assoc]

theorem advanceTo_append (text rest : List Char) (offset : Nat) :
    (⟨text ++ rest, offset⟩ : Cursor).advanceTo rest = ⟨rest, offset + byteLength text⟩ := by
  simp [advanceTo]

@[simp] theorem advance_cons (c : Char) (rest : List Char) (offset : Nat) :
    (⟨c :: rest, offset⟩ : Cursor).advance = ⟨rest, offset + c.utf8Size⟩ := rfl

@[simp] theorem current?_cons (c : Char) (rest : List Char) (offset : Nat) :
    (⟨c :: rest, offset⟩ : Cursor).current? = some c := rfl

@[simp] theorem isAtEnd_cons (c : Char) (rest : List Char) (offset : Nat) :
    (⟨c :: rest, offset⟩ : Cursor).isAtEnd = false := rfl

end Cursor

namespace Scan

variable {α β : Type}

/-! ## Reading in sequence -/

/-- From wherever `text` stands before `rest`, the scan ends between the two, and its result is as
described. -/
def Reads (x : Scan α) (text rest : List Char) (result : α → Prop) : Prop :=
  ∀ offset, ∃ a, result a ∧ x ⟨text ++ rest, offset⟩ = .ok a ⟨rest, offset + byteLength text⟩

namespace Reads

variable {x : Scan α} {f : α → Scan β} {text more rest : List Char} {P : α → Prop}
  {Q : β → Prop}

theorem pure {a : α} (h : P a) : Reads (pure a) [] rest P := fun _ => ⟨a, h, rfl⟩

theorem bind (hx : Reads x text (more ++ rest) P) (hf : ∀ a, P a → Reads (f a) more rest Q) :
    Reads (x >>= f) (text ++ more) rest Q := by
  intro offset
  obtain ⟨a, ha, hxa⟩ := hx offset
  obtain ⟨b, hb, hfb⟩ := hf a ha (offset + byteLength text)
  refine ⟨b, hb, ?_⟩
  rw [List.append_assoc, bind_ok hxa, hfb, byteLength_append, Nat.add_assoc]

/-- Sequencing with a scan that does not move. -/
theorem bind_still (hx : Reads x text rest P) (hf : ∀ a, P a → Reads (f a) [] rest Q) :
    Reads (x >>= f) text rest Q := by
  have hx' : Reads x text ([] ++ rest) P := hx
  have h := hx'.bind hf
  rwa [List.append_nil] at h

theorem map (hx : Reads x text rest P) {f : α → β} (hf : ∀ a, P a → Q (f a)) :
    Reads (f <$> x) text rest Q := by
  intro offset
  obtain ⟨a, ha, hxa⟩ := hx offset
  exact ⟨f a, hf a ha, map_ok hxa⟩

end Reads

/-! ## Tokens -/

theorem skipSpace_append {blanks rest : List Char} {c : Char} (hblanks : AllBlank blanks)
    (hc : isBlank c = false) (offset : Nat) :
    skipSpace ⟨blanks ++ c :: rest, offset⟩ = .ok () ⟨c :: rest, offset + byteLength blanks⟩ := by
  have hskip := Cursor.skipBlanks_append hblanks (c :: rest) (by simpa using hc) offset
  unfold skipSpace
  rw [hskip]
  rfl

theorem readQuoted_append {quote : Char} {rest : List Char} (h : rest.head? ≠ some quote)
    (text : List Char) (offset : Nat) :
    readQuoted quote ⟨quote :: doubled quote text ++ [quote] ++ rest, offset⟩ =
      .ok (String.ofList text)
        ⟨rest, offset + byteLength (quote :: doubled quote text ++ [quote])⟩ := by
  have hinside : unquote quote (doubled quote text ++ [quote] ++ rest) = some (text, rest) := by
    simpa using unquote_doubled h text
  unfold readQuoted
  rw [List.cons_append, List.cons_append, Cursor.advance_cons]
  simp only [hinside]
  rw [← List.cons_append, ← List.cons_append, Cursor.advanceTo_append]

/-- What has been read if a quoted string has been read. -/
theorem readQuoted_eq_ok {quote : Char} {tail : List Char} {offset : Nat} {text : String}
    {next : Cursor} (h : readQuoted quote ⟨quote :: tail, offset⟩ = .ok text next) :
    ∃ inner rest, tail = doubled quote inner ++ quote :: rest ∧ rest.head? ≠ some quote ∧
      text = String.ofList inner ∧
      next = ⟨rest, offset + byteLength (quote :: doubled quote inner ++ [quote])⟩ := by
  unfold readQuoted at h
  rw [Cursor.advance_cons] at h
  dsimp only at h
  split at h
  · rename_i inner rest hinside
    obtain ⟨rfl, hrest⟩ := unquote_eq_some.1 hinside
    have hnext := Cursor.advanceTo_append (quote :: doubled quote inner ++ [quote]) rest offset
    simp only [List.cons_append, List.append_assoc, List.nil_append] at hnext
    cases h
    exact ⟨inner, rest, rfl, hrest, rfl, hnext⟩
  · cases h

/-- Reads a token between quotes. -/
theorem readToken_quoted {blanks rest : List Char} {quote : Char} (hblanks : AllBlank blanks)
    (hquote : isQuote quote = true) (hrest : rest.head? ≠ some quote) (text : List Char)
    (offset : Nat) :
    readToken ⟨blanks ++ (quote :: doubled quote text ++ [quote]) ++ rest, offset⟩ =
      .ok ⟨String.ofList text, true, offset + byteLength blanks⟩
        ⟨rest, offset + byteLength (blanks ++ (quote :: doubled quote text ++ [quote]))⟩ := by
  have hnotBlank : isBlank quote = false := by
    rcases isQuote_eq_true_iff.1 hquote with rfl | rfl <;> rfl
  have hread := readQuoted_append hrest text (offset + byteLength blanks)
  obtain ⟨tail, htail⟩ : ∃ tail, quote :: doubled quote text ++ [quote] = quote :: tail := ⟨_, rfl⟩
  rw [htail] at hread ⊢
  rw [List.cons_append] at hread
  unfold readToken
  rw [List.append_assoc, List.cons_append, bind_ok (skipSpace_append hblanks hnotBlank offset),
    bind_get]
  simp only [Cursor.current?_cons, Option.filter_some, hquote, if_true]
  rw [bind_ok hread, byteLength_append, Nat.add_assoc]
  rfl

/-- Takes a text without the characters that stop it, up to the first of these. -/
theorem takeUntil_append {stop : Char → Bool} {text rest : List Char}
    (htext : ∀ c ∈ text, stop c = false) (hrest : ∀ c ∈ rest.head?, stop c = true) (offset : Nat) :
    takeUntil stop false ⟨text ++ rest, offset⟩ =
      .ok (String.ofList text) ⟨rest, offset + byteLength text⟩ := by
  have hmoved := Cursor.skipWhile_append (p := (!stop ·)) (by simpa using htext)
    (by simpa using hrest) offset
  have htaken : (text ++ rest).takeWhile (!stop ·) = text :=
    takeWhile_stretch (by simpa using htext) (by simpa using hrest)
  unfold takeUntil
  simp only [hmoved, htaken, Bool.false_and, Bool.false_eq_true, if_false]

/-- Reads a token without quotes; it is empty if a delimiter comes first. -/
theorem readToken_bare {blanks word rest tail : List Char} {c : Char} (hblanks : AllBlank blanks)
    (hword : ∀ c ∈ word, isDelimiter c = false) (hrest : EndsToken rest)
    (hcons : word ++ rest = c :: tail) (hblank : isBlank c = false) (hquote : isQuote c = false)
    (offset : Nat) :
    readToken ⟨blanks ++ word ++ rest, offset⟩ =
      .ok ⟨String.ofList word, false, offset + byteLength blanks⟩
        ⟨rest, offset + byteLength (blanks ++ word)⟩ := by
  have htake := takeUntil_append hword hrest (offset + byteLength blanks)
  rw [hcons] at htake
  unfold readToken
  rw [List.append_assoc, hcons, bind_ok (skipSpace_append hblanks hblank offset), bind_get]
  simp only [Cursor.current?_cons, Option.filter_some, hquote, Bool.false_eq_true, if_false]
  rw [bind_ok htake, byteLength_append, Nat.add_assoc]
  rfl

/-- Where a delimiter stands that is no blank, there is an empty token. -/
theorem readToken_none {blanks : List Char} (hblanks : AllBlank blanks) {c : Char}
    (tail : List Char) (hdelimiter : isDelimiter c = true) (hblank : isBlank c = false)
    (hquote : isQuote c = false) (offset : Nat) :
    readToken ⟨blanks ++ c :: tail, offset⟩ =
      .ok ⟨"", false, offset + byteLength blanks⟩ ⟨c :: tail, offset + byteLength blanks⟩ := by
  have hempty : ∀ d ∈ ([] : List Char), isDelimiter d = false := by simp
  have hread := readToken_bare hblanks hempty (endsToken_cons.2 hdelimiter)
    (List.nil_append (c :: tail)) hblank hquote offset
  rwa [List.append_nil] at hread

/-! ## One step of a list of values -/

theorem readElements_error {c stopped : Cursor} {opening : Nat} {values : List String}
    {e : ParseError} (h : readElement opening values.isEmpty c = .error e stopped) :
    readElements opening values c = .error e stopped := by
  rw [readElements]
  split <;> simp_all

theorem readElements_closing {c next : Cursor} {opening : Nat} {values : List String}
    {value : String} (h : readElement opening values.isEmpty c = .ok (value, .closing) next) :
    readElements opening values c = .ok (values ++ [value]) next := by
  rw [readElements]
  split <;> simp_all

theorem readElements_comma {c next : Cursor} {opening : Nat} {values : List String}
    {value : String} (h : readElement opening values.isEmpty c = .ok (value, .comma) next) :
    readElements opening values c = readElements opening (values ++ [value]) next := by
  rw [readElements]
  split <;> simp_all

end Scan

end Eligibility
