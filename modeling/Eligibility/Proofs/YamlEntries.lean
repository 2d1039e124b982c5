import Eligibility.Proofs.YamlLexing

/-!
# Cutting the entries of a YAML mapping into tokens

The lexer goes through an entry in a few steps: the key and its colon, or a question mark and the
key on a line of its own, then the value. Between entries it stands at a fixed column with no key
pending, so that the steps of one entry lead to the next.
-/

namespace Eligibility.Yaml

variable {rest stop tail form ending : List Char} {c : Char}

namespace Lexer

/-! ## Values -/

/-- A value is taken up to the end of its line. -/
theorem takeInLine_value {s : Lexer} {text : String} {plain : Bool} {first : Char}
    {more : List Char} (h : Written text (first :: more) ending plain) (houter : s.outer = [])
    (hpending : s.pending = none) (hcolumns : s.columns.head? = some 2) (hcolumn : 2 < s.column)
    (hfollows : Follows tail stop)
    (hrest : s.rest = first :: more ++ (ending ++ tail)) :
    ∃ passed left pending keyAllowed before,
      s.takeInLine first (more ++ (ending ++ tail)) =
        some (s.taken passed left (.scalar plain text) pending keyAllowed) ∧
      (s.taken passed left (.scalar plain text) pending keyAllowed).AtLineEnd before stop := by
  obtain ⟨blanks, rfl, hblanks, hlength⟩ := hfollows.exists_blanks
  obtain ⟨hskips, hstops⟩ := skipSpacing_follows hfollows
  have hlater : ∀ before, (∃ c ∈ before, isBreak c = true) →
      ∀ k ∈ s.savedKey, k.required = false ∧ k.line < lineAfter s.line before := by
    intro before hbefore k hk
    have hne : s.columns.head? ≠ some s.column := by
      rw [hcolumns, ne_eq, Option.some.injEq]
      omega
    obtain ⟨hrequired, hline⟩ := savedKey_cases hk hne
    exact ⟨hrequired, hline ▸ lt_lineAfter s.line hbefore⟩
  have hquoted : ∀ passed, (s.taken passed ('\n' :: (blanks ++ stop)) (.scalar false text)
      s.savedKey false).AtLineEnd ('\n' :: blanks) stop := by
    intro passed
    refine ⟨houter, rfl, (skipSpacing_break false _).trans hskips, hstops, ?_, ?_⟩
    · have hpassed := hlater (passed ++ '\n' :: blanks) ⟨'\n', by simp, rfl⟩
      rw [lineAfter_append] at hpassed
      exact hpassed
    · refine hlength.imp_right fun hlength => ?_
      exact hlength ▸ columnAfter_lineEnd _ [] rfl hblanks
  cases h with
  | plain htext hfirst hmore =>
    have hindent : s.indent = 3 := by simp [indent, hcolumns]
    have hstop := hfollows.stopsPlain
    rw [← hindent, ← List.cons_append] at hstop
    have htake := takeInLine_plain houter hpending hfirst hmore hstop (by rw [hrest]; simp)
    rw [← htext, String.ofList_toList] at htake
    refine ⟨_, _, _, _, [], htake, houter, rfl, hstops, hstops, ?_, ?_⟩
    · exact hlater _ ⟨'\n', by simp, rfl⟩
    · refine hlength.imp_right fun hlength => ?_
      exact hlength ▸ columnAfter_lineEnd s.column (first :: more) rfl hblanks
  | single htidy =>
    exact ⟨_, _, _, _, _, takeInLine_single htidy hpending hrest (by simp), hquoted _⟩
  | double => exact ⟨_, _, _, _, _, takeInLine_double hpending hrest, hquoted _⟩
  | literal hprintable hfeed =>
    have hne := List.ne_nil_of_mem hfeed
    have htake := takeInLine_literal houter hpending hcolumns hprintable hne hfollows
      (by rw [hrest]; simp)
    obtain ⟨before, c, hc, hlast⟩ := exists_lastBreak hne
    refine ⟨_, _, _, _, [], htake, houter, rfl, hstops, hstops, nofun, ?_⟩
    refine hlength.imp_right fun hlength => ?_
    have hpassed : '|' :: (literalHints text.toList ++ '\n' :: literalText true text.toList) ++
        (lastFeed text.toList ++ blanks) =
          ('|' :: literalHints text.toList ++ '\n' :: before) ++ c :: blanks := by
      simp only [List.append_assoc, List.cons_append]
      rw [← List.append_assoc (literalText true text.toList), hlast]
      simp
    rw [hpassed]
    exact hlength ▸ columnAfter_lineEnd s.column _ hc hblanks

/-- A lexer in an entry, with no key pending. -/
def inEntry (line column : Nat) (tokens : List Token) (keyAllowed : Bool) (rest : List Char) :
    Lexer :=
  { rest, line, column, tokens, columns := [2, 0], pending := none, outer := [], keyAllowed }

theorem prepare_inEntry {column : Nat} (hspacing : isSpacing c = false) (hcomment : c ≠ '#')
    (hcolumn : 2 ≤ column) (line : Nat) (tokens : List Token) (keyAllowed : Bool)
    (rest : List Char) :
    (inEntry line column tokens keyAllowed (' ' :: c :: rest)).prepare =
      some (inEntry line (column + 1) tokens keyAllowed (c :: rest)) := by
  have hskip := skipSpacing_stop keyAllowed hspacing hcomment rest
  have hdrop : (inEntry line column tokens keyAllowed (' ' :: c :: rest)).toToken.dropStale none =
      some none := rfl
  have hclosed : (inEntry line (column + 1) tokens keyAllowed (c :: rest)).closeBlocks
      (column + 1 < ·) = inEntry line (column + 1) tokens keyAllowed (c :: rest) := by
    refine closeBlocks_eq fun other hother => ?_
    cases hother
    exact decide_eq_false (by omega)
  exact (prepare_eq [' '] rfl rfl hskip hdrop).trans (congrArg some hclosed)

/-- A value takes the lexer to the next entry. -/
theorem run_value {text : String} {plain : Bool} {column : Nat}
    (h : Written text form ending plain) (hcolumn : 2 ≤ column) (hfollows : Follows tail stop)
    (line : Nat) (tokens : List Token) (keyAllowed : Bool) :
    ∃ line' column', (stop = [] ∨ column' = 2) ∧
      (inEntry line column tokens keyAllowed (' ' :: (form ++ (ending ++ tail)))).run =
        (between line' column' (tokens ++ [.scalar plain text]) [2, 0] stop).run := by
  obtain ⟨first, more, rfl, hspacing, hcomment⟩ := h.exists_first
  have hprepare := prepare_inEntry hspacing hcomment hcolumn line tokens keyAllowed
    (more ++ (ending ++ tail))
  obtain ⟨passed, left, pending, allowed, before, htake, hend⟩ :=
    takeInLine_value (s := inEntry line (column + 1) tokens keyAllowed
      (first :: more ++ (ending ++ tail))) h rfl rfl rfl (Nat.lt_succ_of_le hcolumn) hfollows rfl
  have htoken := (takeToken_inLine (Nat.succ_ne_zero column) first _).trans htake
  exact ⟨_, _, hend.column, (run_of_token hprepare rfl htoken).trans hend.run_eq⟩

/-! ## Keys -/

/-- Whether a key is the first of its mapping: the columns of the open mappings before the key, and
the token that stands before it. -/
inductive Opens : List Nat → List Token → Prop where
  /-- The first key. -/
  | first : Opens [0] [.openBlock]
  /-- Another key. -/
  | more : Opens [2, 0] []

theorem openBlock_eq {s : Lexer} {opening : List Token} (h : Opens s.columns opening)
    (houter : s.outer = []) (position : Nat) :
    s.openBlock 2 position =
      { s with
        tokens := s.tokens.take position ++ (opening ++ s.tokens.drop position)
        columns := [2, 0] } := by
  have hflow : s.inFlow = false := by simp [inFlow, houter]
  unfold openBlock
  rw [hflow]
  generalize hcolumns : s.columns = columns at h
  cases h with
  | first => rfl
  | more =>
    have hsame : { s with columns := [2, 0] } = s := by rw [← hcolumns]
    rw [List.nil_append, List.take_append_drop]
    exact hsame.symm

theorem head?_of_opens {columns : List Nat} {opening : List Token} (h : Opens columns opening)
    {column : Nat} (hcolumn : 2 ≤ column) : ∀ other ∈ columns.head?, other ≤ column := by
  intro other hother
  cases h <;> cases hother <;> omega

/-- Between entries the next token is at hand. -/
theorem prepare_between_entries {columns : List Nat} {opening : List Token}
    (h : Opens columns opening) (hspacing : isSpacing c = false) (hcomment : c ≠ '#') (line : Nat)
    (tokens : List Token) (rest : List Char) :
    (between line 2 tokens columns (c :: rest)).prepare =
      some (between line 2 tokens columns (c :: rest)) := by
  rw [prepare_between (skipSpacing_stop true hspacing hcomment rest), closeBlocks_eq]
  intro other hother
  exact decide_eq_false (Nat.not_lt.2 (head?_of_opens h (Nat.le_refl 2) other hother))

/-- A question mark starts a key on a line of its own. -/
theorem run_question {columns : List Nat} {opening : List Token} (h : Opens columns opening)
    (line : Nat) (tokens : List Token) (rest : List Char) :
    (between line 2 tokens columns ('?' :: ' ' :: rest)).run =
      (inEntry line 3 (tokens ++ (opening ++ [.key])) true (' ' :: rest)).run := by
  have hprepare := prepare_between_entries h (c := '?') (by decide) (by decide) line tokens
    (' ' :: rest)
  have hopen : (between line 2 tokens columns ('?' :: ' ' :: rest)).openBlock 2 tokens.length =
      between line 2 (tokens ++ opening) [2, 0] ('?' :: ' ' :: rest) := by
    rw [openBlock_eq h rfl]
    simp [between]
  have hpass := passToken_append
    ((between line 2 (tokens ++ opening) [2, 0] ('?' :: ' ' :: rest)).emit .key)
    (List.cons_ne_nil '?' []) rfl
  have htake : (between line 2 tokens columns ('?' :: ' ' :: rest)).takeToken '?' (' ' :: rest) =
      (between line 2 tokens columns ('?' :: ' ' :: rest)).takeQuestion (' ' :: rest) := rfl
  refine run_of_token hprepare rfl ?_
  rw [htake, takeQuestion, if_neg (by simp [between])]
  change ((openBlock _ 2 tokens.length).dropKey.bind _) = _
  rw [hopen, dropKey_eq rfl, Option.bind_some]
  change some { passToken _ _ with keyAllowed := true } = _
  rw [hpass, ← List.append_assoc]
  rfl

/-- A colon under a question mark starts a value. -/
theorem run_colon (line : Nat) (tokens : List Token) (rest : List Char) :
    (between line 2 tokens [2, 0] (':' :: ' ' :: rest)).run =
      (inEntry line 3 (tokens ++ [.value]) true (' ' :: rest)).run := by
  have hprepare := prepare_between_entries .more (c := ':') (by decide) (by decide) line tokens
    (' ' :: rest)
  refine run_of_token hprepare rfl ?_
  have htake : (between line 2 tokens [2, 0] (':' :: ' ' :: rest)).takeToken ':' (' ' :: rest) =
      (between line 2 tokens [2, 0] (':' :: ' ' :: rest)).takeColon (' ' :: rest) := rfl
  have hpass := passToken_append ((between line 2 tokens [2, 0] (':' :: ' ' :: rest)).emit .value)
    (List.cons_ne_nil ':' []) rfl
  have hcolon : (between line 2 tokens [2, 0] (':' :: ' ' :: rest)).takeColon (' ' :: rest) =
      some { ((between line 2 tokens [2, 0] (':' :: ' ' :: rest)).emit .value).passToken
        (' ' :: rest) with keyAllowed := true } := rfl
  rw [htake, hcolon, hpass]
  rfl

/-- A scalar before a colon is noted as a key. -/
theorem takeInLine_key {s : Lexer} {text : String} {plain : Bool} {first : Char}
    {more : List Char} (h : Written text (first :: more) ending plain)
    (hfeed : '\n' ∉ text.toList) (houter : s.outer = []) (hpending : s.pending = none)
    (hrest : s.rest = first :: more ++ ':' :: ' ' :: rest) :
    s.takeInLine first (more ++ ':' :: ' ' :: rest) =
      some (s.taken (first :: more) (':' :: ' ' :: rest) (.scalar plain text) s.savedKey false) := by
  cases h with
  | plain htext hfirst hmore =>
    have hstop : StopsPlain s.indent ([] ++ ':' :: ' ' :: rest) (':' :: ' ' :: rest) false :=
      stopsPlain_colon s.indent rfl
    have htake := takeInLine_plain houter hpending hfirst hmore hstop (by rw [hrest]; simp)
    rw [← htext, String.ofList_toList, List.append_nil] at htake
    exact htake
  | single htidy => exact takeInLine_single htidy hpending hrest (by simp)
  | double => exact takeInLine_double hpending hrest
  | literal _ hmem => exact absurd hmem hfeed

/-- The lexer behind a key, which the next colon may complete. -/
def behindKey (line column : Nat) (tokens : List Token) (columns : List Nat) (key : PendingKey)
    (rest : List Char) : Lexer :=
  { rest, line, column, tokens, columns, pending := some key, outer := [], keyAllowed := false }

/-- A colon near behind a key completes it. -/
theorem run_behindKey {columns : List Nat} {opening : List Token} {column : Nat}
    {tokens : List Token} (key : PendingKey) (h : Opens columns opening) (hcolumn : 2 ≤ column)
    (hnear : column ≤ 2 + maxKeyLength) (hkey : key.column = 2)
    (hposition : key.position = tokens.length) (token : Token) (rest : List Char) :
    (behindKey key.line column (tokens ++ [token]) columns key (':' :: ' ' :: rest)).run =
      (inEntry key.line (column + 1) (tokens ++ (opening ++ [.key, token, .value])) false
        (' ' :: rest)).run := by
  have hskip := skipSpacing_stop (c := ':') false (by decide) (by decide) (' ' :: rest)
  have hdrop : (behindKey key.line column (tokens ++ [token]) columns key
      (':' :: ' ' :: rest)).toToken.dropStale (some key) = some (some key) := by
    have hstale : (behindKey key.line column (tokens ++ [token]) columns key
        (':' :: ' ' :: rest)).toToken.isStale key = false := by
      have hsame : (behindKey key.line column (tokens ++ [token]) columns key
          (':' :: ' ' :: rest)).toToken = behindKey key.line column (tokens ++ [token]) columns key
            (':' :: ' ' :: rest) := toToken_eq [] rfl rfl hskip
      rw [hsame]
      simp only [isStale, behindKey, Nat.lt_irrefl, decide_false, Bool.false_or]
      exact decide_eq_false (by omega)
    simp [dropStale, hstale]
  have hclosed : (behindKey key.line column (tokens ++ [token]) columns key
      (':' :: ' ' :: rest)).closeBlocks (column < ·) =
        behindKey key.line column (tokens ++ [token]) columns key (':' :: ' ' :: rest) := by
    refine closeBlocks_eq fun other hother => ?_
    exact decide_eq_false (Nat.not_lt.2 (head?_of_opens h hcolumn other hother))
  have hprepare := (prepare_eq [] rfl rfl hskip hdrop).trans (congrArg some hclosed)
  have hcomplete : (behindKey key.line column (tokens ++ [token]) columns key
      (':' :: ' ' :: rest)).completeKey key =
        inEntry key.line column (tokens ++ (opening ++ [.key, token])) false
          (':' :: ' ' :: rest) := by
    rw [completeKey, hkey, hposition, openBlock_eq h rfl]
    simp [behindKey, inEntry]
  have hpass := passToken_append
    ((inEntry key.line column (tokens ++ (opening ++ [.key, token])) false
      (':' :: ' ' :: rest)).emit .value) (List.cons_ne_nil ':' []) rfl
  refine run_of_token hprepare rfl ?_
  rw [takeToken_inLine (by simp [behindKey]; omega)]
  change some { passToken (emit (completeKey _ key) .value) _ with keyAllowed := false } = _
  rw [hcomplete, hpass]
  simp [inEntry, emit, lineAfter, columnAfter, isBreak]

/-- A key and its colon on one line. -/
theorem run_key {text : String} {plain : Bool} {columns : List Nat} {opening : List Token}
    (h : Written text form ending plain) (hline : ∀ c ∈ text.toList, isBreak c = false)
    (hbytes : byteLength text.toList ≤ maxKeyBytes) (hopens : Opens columns opening) (line : Nat)
    (tokens : List Token) (rest : List Char) :
    ∃ column, 2 ≤ column ∧
      (between line 2 tokens columns (form ++ ':' :: ' ' :: rest)).run =
        (inEntry line column (tokens ++ (opening ++ [.key, .scalar plain text, .value])) false
          (' ' :: rest)).run := by
  obtain ⟨-, honLine, hlength⟩ := h.onLine hline
  obtain ⟨first, more, rfl, hspacing, hcomment⟩ := h.exists_first
  have hfeed : '\n' ∉ text.toList := fun hmem => by
    have := hline '\n' hmem
    cases this
  have hprepare := prepare_between_entries hopens hspacing hcomment line tokens
    (more ++ ':' :: ' ' :: rest)
  have htake := takeInLine_key
    (s := between line 2 tokens columns (first :: more ++ ':' :: ' ' :: rest)) h hfeed rfl rfl rfl
  have hcolumn : columnAfter 2 (first :: more) = 2 + (first :: more).length :=
    columnAfter_line 2 honLine
  have hbehind : (between line 2 tokens columns (first :: more ++ ':' :: ' ' :: rest)).taken
      (first :: more) (':' :: ' ' :: rest) (.scalar plain text)
        (between line 2 tokens columns (first :: more ++ ':' :: ' ' :: rest)).savedKey false =
      behindKey line (2 + (first :: more).length) (tokens ++ [.scalar plain text]) columns
        ⟨tokens.length, line, 2, columns.head? == some 2⟩ (':' :: ' ' :: rest) := by
    simp [taken, between, behindKey, savedKey, inFlow, lineAfter_line line honLine, hcolumn]
  have hnear : 2 + (first :: more).length ≤ 2 + maxKeyLength := by
    unfold maxKeyBytes at hbytes
    unfold maxKeyLength
    omega
  rw [hbehind] at htake
  refine ⟨_, ?_, (run_of_token hprepare rfl htake).trans
    (run_behindKey ⟨tokens.length, line, 2, columns.head? == some 2⟩ hopens
      (Nat.le_add_right 2 _) hnear rfl rfl _ rest)⟩
  omega

/-! ## Entries -/

/-- An entry without the blanks before it. -/
def entryBody (key value : String) : List Char :=
  (if isSimpleKey key then scalarText key ++ [':', ' ']
    else '?' :: ' ' :: (scalarText key ++ (lineEnd key ++ [' ', ' ', ':', ' ']))) ++
    (scalarText value ++ lineEnd value)

theorem entryText_eq (key value : String) :
    entryText key value = ' ' :: ' ' :: entryBody key value := by
  unfold entryText entryBody
  split <;> simp

/-- The tokens of an entry. -/
def entryTokens (key value : String) : List Token :=
  [.key, .scalar (isPlain key) key, .value, .scalar (isPlain value) value]

theorem follows_entry (key value : String) (rest : List Char) :
    Follows (entryText key value ++ rest) (entryBody key value ++ rest) := by
  obtain ⟨first, more, hform, hspacing, hcomment⟩ := (written key).exists_first
  rw [entryText_eq]
  unfold entryBody
  split
  · rw [hform]
    exact .line hspacing hcomment
  · exact .line (by decide) (by decide)

/-- An entry is cut into its tokens. -/
theorem run_entry {columns : List Nat} {opening : List Token} (h : Opens columns opening)
    (key value : String) (hfollows : Follows tail stop) (line : Nat) (tokens : List Token) :
    ∃ line' column, (stop = [] ∨ column = 2) ∧
      (between line 2 tokens columns (entryBody key value ++ tail)).run =
        (between line' column (tokens ++ (opening ++ entryTokens key value)) [2, 0] stop).run := by
  unfold entryBody
  by_cases hsimple : isSimpleKey key = true
  · rw [if_pos hsimple]
    simp only [isSimpleKey, Bool.and_eq_true, Bool.not_eq_true', List.any_eq_false,
      decide_eq_true_eq] at hsimple
    have hline : ∀ c ∈ key.toList, isBreak c = false := by
      intro c hc
      have hends := hsimple.1 c hc
      simp only [endsLine, Bool.or_eq_true, not_or] at hends
      simpa using hends.1.1
    obtain ⟨column, hcolumn, hkey⟩ := run_key (written key) hline hsimple.2 h line tokens
      (scalarText value ++ (lineEnd value ++ tail))
    obtain ⟨line', column', hstop, hvalue⟩ := run_value (written value) hcolumn hfollows line
      (tokens ++ (opening ++ [.key, .scalar (isPlain key) key, .value])) false
    refine ⟨line', column', hstop, ?_⟩
    have hrun := hkey.trans hvalue
    simpa [entryTokens] using hrun
  · rw [if_neg hsimple]
    have hcolon : Follows
        (' ' :: ' ' :: ':' :: ' ' :: (scalarText value ++ (lineEnd value ++ tail)))
        (':' :: ' ' :: (scalarText value ++ (lineEnd value ++ tail))) :=
      .line (by decide) (by decide)
    have hquestion := run_question h line tokens (scalarText key ++ (lineEnd key ++
      ' ' :: ' ' :: ':' :: ' ' :: (scalarText value ++ (lineEnd value ++ tail))))
    obtain ⟨lower, column, hstop, hkey⟩ := run_value (written key) (by decide : 2 ≤ 3) hcolon line
      (tokens ++ (opening ++ [.key])) true
    obtain rfl : column = 2 := hstop.resolve_left (List.cons_ne_nil _ _)
    obtain ⟨line', column', hstop, hvalue⟩ := run_value (written value) (by decide : 2 ≤ 3) hfollows
      lower (tokens ++ (opening ++ [.key]) ++ [.scalar (isPlain key) key] ++ [.value]) true
    refine ⟨line', column', hstop, ?_⟩
    have hrun := hquestion.trans (hkey.trans ((run_colon lower _ _).trans hvalue))
    simpa [entryTokens] using hrun

/-- The end of the text ends both mappings. -/
theorem run_nothing (line column : Nat) (tokens : List Token) :
    (between line column tokens [2, 0] []).run =
      some (tokens ++ [.closeBlock, .closeBlock, .endOfText]) := by
  rw [run_of_end (prepare_between rfl) (rest_closeBlocks _ _)]
  by_cases hcolumn : column < 2
  · simp [between, closeBlocks, closeColumns, finish, dropKey, inFlow, hcolumn]
  · simp [between, closeBlocks, closeColumns, finish, dropKey, inFlow, hcolumn]

/-- The entries of a mapping. -/
def entriesText (pairs : List (String × String)) : List Char :=
  pairs.flatMap fun (key, value) => entryText key value

/-- The tokens of the entries of a mapping. -/
def entriesTokens (pairs : List (String × String)) : List Token :=
  pairs.flatMap fun (key, value) => entryTokens key value

theorem entriesText_cons (key value : String) (pairs : List (String × String)) :
    entriesText ((key, value) :: pairs) = entryText key value ++ entriesText pairs := rfl

/-- Entries are cut into their tokens, one after the other. -/
theorem run_entries {columns : List Nat} {opening : List Token} (h : Opens columns opening)
    (key value : String) (pairs : List (String × String)) (line : Nat) (tokens : List Token) :
    (between line 2 tokens columns (entryBody key value ++ entriesText pairs)).run =
      some (tokens ++ (opening ++ entriesTokens ((key, value) :: pairs)) ++
        [.closeBlock, .closeBlock, .endOfText]) := by
  induction pairs generalizing columns opening key value line tokens with
  | nil =>
    obtain ⟨line', column, -, hrun⟩ := run_entry h key value .nothing line tokens
    have hend := hrun.trans (run_nothing line' column _)
    simpa [entriesText, entriesTokens] using hend
  | cons pair pairs ih =>
    obtain ⟨next, id⟩ := pair
    obtain ⟨line', column, hstop, hrun⟩ :=
      run_entry h key value (follows_entry next id (entriesText pairs)) line tokens
    have hne : entryBody next id ++ entriesText pairs ≠ [] := by
      have hbody : entryBody next id ≠ [] := by
        unfold entryBody
        split <;> simp
      simp [hbody]
    obtain rfl : column = 2 := hstop.resolve_left hne
    have hmore := hrun.trans (ih .more next id line' _)
    simpa [entriesText, entriesTokens] using hmore

/-! ## The whole text -/

/-- The key of the whole text. -/
def sourcesKey : PendingKey := ⟨0, 0, 0, false⟩

theorem run_word (rest : List Char) :
    (start ("sources:".toList ++ '\n' :: rest)).run =
      (behindKey 0 7 [.scalar true "sources"] [] sourcesKey (':' :: '\n' :: rest)).run := by
  have hfirst : StartsPlain 's' "ources".toList := ⟨by decide, by decide, by decide, by decide⟩
  have hchars : ∀ c ∈ "ources".toList, StandsOnLine c := by
    simp [StandsOnLine, isPrintable, isBreak]
  have hmore : GoesPlain "ources".toList := ⟨hchars, by decide, by decide⟩
  have hstop : StopsPlain 0 ([] ++ ':' :: '\n' :: rest) (':' :: '\n' :: rest) false :=
    stopsPlain_colon 0 rfl
  have hskip := skipSpacing_stop (c := 's') true (by decide) (by decide)
    ("ources:".toList ++ '\n' :: rest)
  have htake := takeInLine_plain (s := between 0 0 [] [] ("sources:".toList ++ '\n' :: rest)) rfl rfl
    hfirst hmore hstop rfl
  exact run_of_token (prepare_between hskip) rfl htake

theorem run_sourcesKey (rest : List Char) :
    (behindKey 0 7 [.scalar true "sources"] [] sourcesKey (':' :: '\n' :: rest)).run =
      run
        { rest := '\n' :: rest, line := 0, column := 8,
          tokens := [.openBlock, .key, .scalar true "sources", .value], columns := [0],
          pending := none, outer := [], keyAllowed := false } := by
  have hskip := skipSpacing_stop (c := ':') false (by decide) (by decide) ('\n' :: rest)
  have hdrop : (behindKey 0 7 [.scalar true "sources"] [] sourcesKey
      (':' :: '\n' :: rest)).toToken.dropStale (some sourcesKey) = some (some sourcesKey) := by
    rw [toToken_eq [] rfl rfl hskip]
    rfl
  have hpass := passToken_append (((behindKey 0 7 [.scalar true "sources"] [] sourcesKey
    (':' :: '\n' :: rest)).completeKey sourcesKey).emit .value) (List.cons_ne_nil ':' []) rfl
  refine run_of_token (prepare_eq [] rfl rfl hskip hdrop) rfl ?_
  change some { passToken (emit (completeKey _ sourcesKey) .value) _ with keyAllowed := false } = _
  exact congrArg (fun s : Lexer => some { s with keyAllowed := false }) hpass

/-- The text of a mapping with entries is cut into their tokens. -/
theorem run_sources (key value : String) (pairs : List (String × String)) :
    (start ("sources:".toList ++ '\n' :: entriesText ((key, value) :: pairs))).run =
      some ([.openBlock, .key, .scalar true "sources", .value, .openBlock] ++
        entriesTokens ((key, value) :: pairs) ++ [.closeBlock, .closeBlock, .endOfText]) := by
  have hentries : entriesText ((key, value) :: pairs) =
      ' ' :: ' ' :: (entryBody key value ++ entriesText pairs) := by
    rw [entriesText_cons, entryText_eq]
    rfl
  obtain ⟨hskips, hstops⟩ := skipSpacing_follows (follows_entry key value (entriesText pairs))
  rw [entryText_eq] at hskips
  have hend : AtLineEnd
      { rest := '\n' :: ' ' :: ' ' :: (entryBody key value ++ entriesText pairs), line := 0,
        column := 8, tokens := [.openBlock, .key, .scalar true "sources", .value], columns := [0],
        pending := none, outer := [], keyAllowed := false }
      ['\n', ' ', ' '] (entryBody key value ++ entriesText pairs) :=
    ⟨rfl, rfl, (skipSpacing_break false _).trans hskips, hstops, nofun, .inr rfl⟩
  rw [run_word, run_sourcesKey, hentries, hend.run_eq]
  exact run_entries .first key value pairs _ _

end Lexer

end Eligibility.Yaml
