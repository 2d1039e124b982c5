import Eligibility.Proofs.YamlForms
import Eligibility.Yaml.Lexer

/-!
# Taking scalars from a YAML text

What a lexer does from one token to the next: how its position moves, what it leaves out before a
token, and how it takes a scalar in each of the forms that are written. Where it stands afterwards
is all that a step tells the next one about the text behind it.
-/

namespace Eligibility.Yaml

variable {rest stop tail chars form ending : List Char} {c : Char}

namespace Lexer

/-! ## Positions -/

/-- The column behind a text that starts in a column. -/
def columnAfter (column : Nat) : List Char → Nat
  | [] => column
  | c :: text => columnAfter (if isBreak c then 0 else column + 1) text

/-- The line behind a text. -/
def lineAfter (line : Nat) (text : List Char) : Nat := line + text.countP isBreak

theorem columnAfter_append (column : Nat) (a b : List Char) :
    columnAfter column (a ++ b) = columnAfter (columnAfter column a) b := by
  induction a generalizing column with
  | nil => rfl
  | cons c a ih => exact ih _

theorem columnAfter_line (column : Nat) {line : List Char} (h : ∀ c ∈ line, isBreak c = false) :
    columnAfter column line = column + line.length := by
  induction line generalizing column with
  | nil => rfl
  | cons c line ih =>
    have hc := h c List.mem_cons_self
    rw [columnAfter, ih _ fun d hd => h d (List.mem_cons_of_mem c hd), hc, List.length_cons]
    simp only [Bool.false_eq_true, if_false]
    omega

/-- Behind the last line break only blanks count. -/
theorem columnAfter_lineEnd (column : Nat) (before : List Char) (hc : isBreak c = true)
    {blanks : List Char} (hblanks : ∀ d ∈ blanks, d = ' ') :
    columnAfter column (before ++ c :: blanks) = blanks.length := by
  have hline : ∀ d ∈ blanks, isBreak d = false := fun d hd => by
    rw [hblanks d hd]
    rfl
  rw [columnAfter_append, columnAfter, if_pos hc, columnAfter_line 0 hline, Nat.zero_add]

theorem lineAfter_line (line : Nat) {text : List Char} (h : ∀ c ∈ text, isBreak c = false) :
    lineAfter line text = line := by
  have hcount : text.countP isBreak = 0 := List.countP_eq_zero.2 (by simpa using h)
  rw [lineAfter, hcount, Nat.add_zero]

theorem lineAfter_append (line : Nat) (a b : List Char) :
    lineAfter line (a ++ b) = lineAfter (lineAfter line a) b := by
  simp only [lineAfter, List.countP_append]
  omega

theorem lt_lineAfter (line : Nat) {text : List Char} (h : ∃ c ∈ text, isBreak c = true) :
    line < lineAfter line text := by
  have hcount : 0 < text.countP isBreak := List.countP_pos_iff.2 h
  rw [lineAfter]
  omega

theorem foldl_pass (s : Lexer) (text : List Char) :
    text.foldl pass s =
      { s with line := lineAfter s.line text, column := columnAfter s.column text } := by
  induction text generalizing s with
  | nil => rfl
  | cons c text ih =>
    rw [List.foldl_cons, ih]
    by_cases hc : isBreak c = true
    · simp only [pass, hc, if_true, columnAfter, lineAfter, List.countP_cons_of_pos hc]
      congr 1
      omega
    · simp only [pass, hc, columnAfter, lineAfter, List.countP_cons_of_neg hc]
      rfl

theorem passMany_append (s : Lexer) {before : List Char} (h : s.rest = before ++ rest) :
    s.passMany before.length =
      { s with
        rest
        line := lineAfter s.line before
        column := columnAfter s.column before } := by
  have htake : s.rest.take before.length = before := by rw [h, List.take_left]
  have hdrop : s.rest.drop before.length = rest := by rw [h, List.drop_left]
  rw [passMany, htake, hdrop, foldl_pass]

theorem moveTo_append (s : Lexer) {before : List Char} (h : s.rest = before ++ rest) :
    s.moveTo rest =
      { s with
        rest
        line := lineAfter s.line before
        column := columnAfter s.column before } := by
  have hlength : s.rest.length - rest.length = before.length := by
    rw [h, List.length_append]
    omega
  rw [moveTo, hlength, passMany_append s h]

theorem passToken_append (s : Lexer) {before : List Char} (hne : before ≠ [])
    (h : s.rest = before ++ rest) :
    s.passToken rest =
      { s with
        rest
        line := lineAfter s.line before
        column := columnAfter s.column before } := by
  have hpos := List.length_pos_iff.2 hne
  have hlength : max 1 (s.rest.length - rest.length) = before.length := by
    rw [h, List.length_append]
    omega
  rw [passToken, hlength, passMany_append s h]

/-! ## Steps -/

/-- Takes the token at the start of what is left, and all tokens after it. -/
theorem run_eq (s : Lexer) :
    s.run = s.prepare.bind fun next =>
      match next.rest with
      | [] => next.finish
      | c :: rest => (next.takeToken c rest).bind run := by
  rw [run]
  split
  · rename_i hnone
    rw [hnone, Option.bind_none]
  · rename_i next hsome
    rw [hsome, Option.bind_some]
    split
    · rename_i hnil
      simp [hnil]
    · rename_i hcons
      simp only [hcons]
      split <;> simp [*]

theorem run_of_token {s next after : Lexer} (hprepare : s.prepare = some next)
    (hrest : next.rest = c :: rest) (htake : next.takeToken c rest = some after) :
    s.run = after.run := by
  rw [run_eq, hprepare, Option.bind_some, hrest]
  simp only [htake, Option.bind_some]

theorem run_of_end {s next : Lexer} (hprepare : s.prepare = some next) (hrest : next.rest = []) :
    s.run = next.finish := by
  rw [run_eq, hprepare, Option.bind_some, hrest]

/-- What comes next depends on a lexer only from its next token on. -/
theorem run_congr {s t : Lexer} (h : s.prepare = t.prepare) : s.run = t.run := by
  rw [run_eq, h, ← run_eq]

/-- No block mapping ends where the innermost one goes on. -/
theorem closeBlocks_eq {s : Lexer} {p : Nat → Bool}
    (h : ∀ column ∈ s.columns.head?, p column = false) : s.closeBlocks p = s := by
  have hclose : closeColumns p s.tokens s.columns = (s.tokens, s.columns) := by
    cases hcolumns : s.columns with
    | nil => rfl
    | cons column columns =>
      have hp : p column = false := h column (by rw [hcolumns]; rfl)
      simp [closeColumns, hp]
  unfold closeBlocks
  rw [hclose]
  split <;> rfl

/-- The lexer behind the spacing and comments before its next token. -/
theorem toToken_eq {s : Lexer} (before : List Char) {keyAllowed : Bool} (houter : s.outer = [])
    (hrest : s.rest = before ++ rest)
    (hskip : skipSpacing false false s.keyAllowed s.rest = (rest, keyAllowed)) :
    s.toToken =
      { s with
        rest
        line := lineAfter s.line before
        column := columnAfter s.column before
        keyAllowed } := by
  have hflow : s.inFlow = false := by simp [inFlow, houter]
  rw [toToken, hflow, hskip]
  simp only [moveTo_append s hrest]

theorem prepare_eq {s : Lexer} (before : List Char) {keyAllowed : Bool}
    {pending : Option PendingKey} (houter : s.outer = []) (hrest : s.rest = before ++ rest)
    (hskip : skipSpacing false false s.keyAllowed s.rest = (rest, keyAllowed))
    (hpending : s.toToken.dropStale s.pending = some pending) :
    s.prepare = some (closeBlocks
      { s with
        rest
        line := lineAfter s.line before
        column := columnAfter s.column before
        pending
        keyAllowed } (columnAfter s.column before < ·)) := by
  have htoken := toToken_eq before houter hrest hskip
  have hsame : s.toToken.pending = s.pending := by rw [htoken]
  have houter' : s.toToken.outer = [] := by rw [htoken]; exact houter
  have hdrop : s.toToken.dropStaleKeys = some { s.toToken with pending } := by
    unfold dropStaleKeys
    rw [houter', hsame, hpending]
    simp [houter']
  unfold prepare
  rw [hdrop, htoken]
  rfl

/-- A lexer between entries: no key is pending, and one may start. -/
def between (line column : Nat) (tokens : List Token) (columns : List Nat) (rest : List Char) :
    Lexer :=
  { rest, line, column, tokens, columns, pending := none, outer := [], keyAllowed := true }

theorem prepare_between {line column : Nat} {tokens : List Token} {columns : List Nat}
    (hstop : skipSpacing false false true stop = (stop, true)) :
    (between line column tokens columns stop).prepare =
      some ((between line column tokens columns stop).closeBlocks (column < ·)) := by
  have hdrop : (between line column tokens columns stop).toToken.dropStale none = some none := rfl
  exact prepare_eq [] rfl rfl hstop hdrop

/-- A lexer on whose line only spacing is left, and what follows at the next token. -/
structure AtLineEnd (s : Lexer) (before stop : List Char) : Prop where
  outer : s.outer = []
  rest : s.rest = before ++ stop
  skips : skipSpacing false false s.keyAllowed s.rest = (stop, true)
  stops : skipSpacing false false true stop = (stop, true)
  pending : ∀ k ∈ s.pending, k.required = false ∧ k.line < lineAfter s.line before
  column : stop = [] ∨ columnAfter s.column before = 2

/-- A key on a line that has ended is given up. -/
theorem AtLineEnd.run_eq {s : Lexer} {before : List Char} (h : s.AtLineEnd before stop) :
    s.run = (between (lineAfter s.line before) (columnAfter s.column before) s.tokens s.columns
      stop).run := by
  have hline : s.toToken.line = lineAfter s.line before := by
    rw [toToken_eq before h.outer h.rest h.skips]
  have hdrop : s.toToken.dropStale s.pending = some none := by
    cases hkey : s.pending with
    | none => rfl
    | some k =>
      obtain ⟨hrequired, hk⟩ := h.pending k hkey
      have hstale : s.toToken.isStale k = true := by simp [isStale, hline, hk]
      simp [dropStale, hstale, hrequired]
  refine run_congr ?_
  rw [prepare_eq before h.outer h.rest h.skips hdrop, prepare_between h.stops, between, h.outer]

theorem skipSpacing_stop (keyAllowed : Bool) (hspacing : isSpacing c = false) (hcomment : c ≠ '#')
    (rest : List Char) : skipSpacing false false keyAllowed (c :: rest) = (c :: rest, keyAllowed) := by
  simp only [isSpacing, isBlank, Bool.or_eq_false_iff, beq_eq_false_iff_ne] at hspacing
  simp [skipSpacing, hspacing, hcomment]

theorem skipSpacing_blank (keyAllowed : Bool) (rest : List Char) :
    skipSpacing false false keyAllowed (' ' :: rest) = skipSpacing false false keyAllowed rest := rfl

theorem skipSpacing_break (keyAllowed : Bool) (rest : List Char) :
    skipSpacing false false keyAllowed ('\n' :: rest) = skipSpacing false false true rest := by
  cases keyAllowed <;> rfl

theorem skipSpacing_follows (h : Follows tail stop) :
    skipSpacing false false true tail = (stop, true) ∧
      skipSpacing false false true stop = (stop, true) := by
  cases h with
  | nothing => exact ⟨rfl, rfl⟩
  | line hspacing hcomment =>
    have hstop := skipSpacing_stop true hspacing hcomment
    exact ⟨by rw [skipSpacing_blank, skipSpacing_blank, hstop], hstop _⟩

theorem takeToken_inLine {s : Lexer} (h : s.column ≠ 0) (c : Char) (rest : List Char) :
    s.takeToken c rest = s.takeInLine c rest := by
  rw [takeToken, if_neg h]

/-! ## Scalars -/

/-- The key that is noted where a token starts. -/
def savedKey (s : Lexer) : Option PendingKey :=
  if s.keyAllowed then
    some
      { position := s.tokens.length
        line := s.line
        column := s.column
        required := !s.inFlow && s.columns.head? == some s.column }
  else none

theorem dropKey_eq {s : Lexer} (h : s.pending = none) : s.dropKey = some s := by
  rw [dropKey, h, if_neg (by simp), ← h]

theorem saveKey_eq {s : Lexer} (h : s.pending = none) :
    s.saveKey = some { s with pending := s.savedKey } := by
  unfold saveKey savedKey
  by_cases hkey : s.keyAllowed = true
  · rw [if_pos hkey, if_pos hkey, dropKey_eq h]
    rfl
  · rw [if_neg hkey, if_neg hkey, ← h]

/-- A key that is noted where no key of a block mapping is expected. -/
theorem savedKey_cases {s : Lexer} {k : PendingKey} (h : k ∈ s.savedKey)
    (hcolumn : s.columns.head? ≠ some s.column) : k.required = false ∧ k.line = s.line := by
  unfold savedKey at h
  split at h
  · cases h
    have hhead : (s.columns.head? == some s.column) = false := by simpa using hcolumn
    exact ⟨by simp only [hhead, Bool.and_false], rfl⟩
  · cases h

/-- The lexer behind a scalar. -/
def taken (s : Lexer) (before rest : List Char) (t : Token) (pending : Option PendingKey)
    (keyAllowed : Bool) : Lexer :=
  { s with
    rest
    line := lineAfter s.line before
    column := columnAfter s.column before
    tokens := s.tokens ++ [t]
    pending
    keyAllowed }

theorem takeNode_eq {s : Lexer} {before : List Char} (t : Token) (hpending : s.pending = none)
    (hne : before ≠ []) (hrest : s.rest = before ++ rest) :
    s.takeNode (some (t, rest)) = some (s.taken before rest t s.savedKey false) := by
  have hpass := passToken_append ({ s with pending := s.savedKey }.emit t) hne hrest
  unfold takeNode
  rw [saveKey_eq hpending]
  simp only [Option.bind_eq_bind, Option.bind_some]
  rw [hpass]
  rfl

theorem takeInLine_single {s : Lexer} {text : String} (h : Tidy text.toList)
    (hpending : s.pending = none)
    (hrest : s.rest = '\'' :: (singleText false text.toList ++ ['\'']) ++ rest)
    (hnext : rest.head? ≠ some '\'') :
    s.takeInLine '\'' (singleText false text.toList ++ ['\''] ++ rest) =
      some (s.taken ('\'' :: (singleText false text.toList ++ ['\''])) rest (.scalar false text)
        s.savedKey false) := by
  have hread : quotedToken (readSingle (singleText false text.toList ++ ['\''] ++ rest)) =
      some (.scalar false text, rest) := by
    rw [List.append_assoc, List.singleton_append, readSingle_singleText h hnext]
    simp [quotedToken]
  have htake := takeNode_eq (.scalar false text) hpending (List.cons_ne_nil _ _) hrest
  rw [← hread] at htake
  exact htake

theorem takeInLine_double {s : Lexer} {text : String} (hpending : s.pending = none)
    (hrest : s.rest = '"' :: (text.toList.flatMap escapedChar ++ ['"']) ++ rest) :
    s.takeInLine '"' (text.toList.flatMap escapedChar ++ ['"'] ++ rest) =
      some (s.taken ('"' :: (text.toList.flatMap escapedChar ++ ['"'])) rest (.scalar false text)
        s.savedKey false) := by
  have hread : quotedToken (readDouble (text.toList.flatMap escapedChar ++ ['"'] ++ rest)) =
      some (.scalar false text, rest) := by
    rw [List.append_assoc, List.singleton_append, readDouble_escaped]
    simp [quotedToken]
  have htake := takeNode_eq (.scalar false text) hpending (List.cons_ne_nil _ _) hrest
  rw [← hread] at htake
  exact htake

/-- What starts a plain scalar has no other meaning. -/
theorem takeInLine_startsPlain {s : Lexer} {more : List Char} (houter : s.outer = [])
    (hfirst : StartsPlain c more) (rest : List Char) :
    s.takeInLine c (more ++ rest) = s.takePlain (readPlain false s.indent c (more ++ rest)) := by
  have hflow : s.inFlow = false := by simp [inFlow, houter]
  have hmark : c = '-' ∨ c = '?' ∨ c = ':' → atSpacing (more ++ rest) = false := by
    intro hc
    have hmore := hfirst.noMark hc
    cases more with
    | nil => cases hmore
    | cons d more => exact hmore
  have hindicator := hfirst.noIndicator
  have hstarts : startsPlain s.inFlow c (more ++ rest) = true := by
    unfold startsPlain
    by_cases hdash : c = '-'
    · have hspacing := hmark (.inl hdash)
      cases htext : more ++ rest with
      | nil => rw [hdash]; rfl
      | cons d others =>
        rw [htext] at hspacing
        simp only [atSpacing, List.head?_cons, Option.all_some, isSpacing,
          Bool.or_eq_false_iff] at hspacing
        simp [hdash, hspacing.1]
    · by_cases hquestion : c = '?' ∨ c = ':'
      · have hspacing := hmark (.inr hquestion)
        simp [hdash, hquestion, hflow, hspacing]
      · have hcontains : ",[]\x7b\x7d#&*!|>'\"%@\x60".toList.contains c = isIndicator c := by
          simp only [isIndicator, List.contains_eq_mem, String.reduceToList]
          grind
        have hother : (c == '?' || c == ':') = false := by simpa using hquestion
        have hdash : (c == '-') = false := by simpa using hdash
        rw [hdash, hother, hcontains, hindicator, hfirst.noSpacing]
        rfl
  have htake : s.takeContent c (more ++ rest) =
      s.takePlain (readPlain false s.indent c (more ++ rest)) := by
    have hblock : c ≠ '|' ∧ c ≠ '>' := by
      constructor <;> rintro rfl <;> exact absurd hindicator (by decide)
    unfold takeContent
    split
    iterate 5 exact absurd hindicator (by decide)
    rw [if_neg (by simp [hblock]), if_pos hstarts, hflow]
  unfold takeInLine
  split
  iterate 3 exact absurd hindicator (by decide)
  · rw [hmark (.inl rfl)]
    exact htake
  · rw [standsAlone, hflow, hmark (.inr (.inl rfl))]
    exact htake
  · rw [standsAlone, hflow, hmark (.inr (.inr rfl))]
    exact htake
  · exact htake

theorem takeInLine_plain {s : Lexer} {first : Char} {more skipped after : List Char}
    {endsLine : Bool} (houter : s.outer = []) (hpending : s.pending = none)
    (hfirst : StartsPlain first more) (hmore : GoesPlain more)
    (hstop : StopsPlain s.indent (skipped ++ after) after endsLine)
    (hrest : s.rest = first :: (more ++ skipped) ++ after) :
    s.takeInLine first (more ++ (skipped ++ after)) =
      some (s.taken (first :: (more ++ skipped)) after (.scalar true (String.ofList (first :: more)))
        s.savedKey endsLine) := by
  have hpass := passToken_append
    ({ s with pending := s.savedKey }.emit (.scalar true (String.ofList (first :: more))))
    (List.cons_ne_nil _ _) hrest
  rw [takeInLine_startsPlain houter hfirst, readPlain_append hmore hstop]
  unfold takePlain
  rw [saveKey_eq hpending]
  simp only [Option.bind_eq_bind, Option.bind_some]
  rw [hpass]
  rfl

theorem takeInLine_literal {s : Lexer} {text : String} {blanks : List Char} (houter : s.outer = [])
    (hpending : s.pending = none) (hcolumns : s.columns.head? = some 2)
    (hprintable : ∀ c ∈ text.toList, isPrintable c = true) (hne : text.toList ≠ [])
    (hfollows : Follows (blanks ++ stop) stop)
    (hrest : s.rest = '|' :: (literalHints text.toList ++ '\n' :: literalText true text.toList) ++
      (lastFeed text.toList ++ blanks) ++ stop) :
    s.takeInLine '|' (literalHints text.toList ++ '\n' :: literalText true text.toList ++
        (lastFeed text.toList ++ (blanks ++ stop))) =
      some (s.taken ('|' :: (literalHints text.toList ++ '\n' :: literalText true text.toList) ++
        (lastFeed text.toList ++ blanks)) stop (.scalar false text) none true) := by
  have hflow : s.inFlow = false := by simp [inFlow, houter]
  have htake : ∀ text, s.takeInLine '|' text = s.takeBlock (readBlock false (some 2) text) := by
    intro text
    have hcontent : s.takeInLine '|' text =
        if !s.inFlow then s.takeBlock (readBlock false s.columns.head? text)
        else if startsPlain s.inFlow '|' text then
          s.takePlain (readPlain s.inFlow s.indent '|' text)
        else none := rfl
    rw [hcontent, hflow, hcolumns]
    rfl
  have hread := readBlock_literalText hprintable hne hfollows
  have hpass := passToken_append (s.emit (.scalar false text)) (List.append_ne_nil_of_left_ne_nil
    (List.cons_ne_nil _ _) _) hrest
  rw [htake, List.append_assoc, List.cons_append, hread]
  unfold takeBlock
  rw [dropKey_eq hpending]
  simp only [Option.bind_eq_bind, Option.bind_some, String.ofList_toList]
  rw [hpass, taken, ← hpending]
  rfl

end Lexer

end Eligibility.Yaml
