import Eligibility.Configuration.Toml
import Eligibility.Proofs.Configurations
import Eligibility.Proofs.Relocation
import Eligibility.Proofs.TomlStrings

/-!
# Configurations in TOML

The TOML text of a configuration is read as the same configuration
(`Configuration.readToml_writeToml`): each line is cut into the tokens of a key and a string, and
these are put together to the entries again.
-/

namespace Eligibility

namespace Toml

variable {text rest : List Char} {c : Char}

/-! ## Strings as tokens -/

/-- What follows a string is not one more quote. -/
def EndsString (rest : List Char) : Prop := rest.head? ≠ some '"' ∧ rest.head? ≠ some '\''

theorem readString_basic (h : ∀ after, text ≠ '"' :: '"' :: after) :
    readString '"' text = stringToken .string (readBasic text) := by
  unfold readString
  split
  · rename_i after
    exact absurd rfl (h after)
  · rfl
  · rfl

theorem readString_literal (h : ∀ after, text ≠ '\'' :: '\'' :: after) :
    readString '\'' text = stringToken .string (readLiteral text) := by
  unfold readString
  split
  · rfl
  · rename_i after
    exact absurd rfl (h after)
  · rfl

theorem readToken_quote {quote : Char} (h : quote = '"' ∨ quote = '\'') (text : List Char) :
    readToken (quote :: text) = readString quote text := by
  rcases h with rfl | rfl <;> rfl

theorem dropBreak_break (text : List Char) : dropBreak ('\n' :: text) = text := rfl

theorem dropBreak_of_ne (hbreak : c ≠ '\n') (hreturn : c ≠ '\r') (text : List Char) :
    dropBreak (c :: text) = c :: text := by
  unfold dropBreak afterBreak?
  split
  · rename_i heq
    exact absurd (List.cons.inj heq).1 hbreak
  · rename_i heq
    exact absurd (List.cons.inj heq).1 hreturn
  · rfl

/-- The break that is put before a text with breaks is taken away again. -/
theorem dropBreak_firstBreak {inner : List Char}
    (h : text.contains '\n' = false → ∃ d more, inner = d :: more ∧ d ≠ '\n' ∧ d ≠ '\r') :
    dropBreak ((if text.contains '\n' then ['\n'] else []) ++ inner) = inner := by
  by_cases hbreak : text.contains '\n' = true
  · rw [if_pos hbreak]
    exact dropBreak_break inner
  · obtain ⟨d, more, rfl, hd, hd'⟩ := h (by simpa using hbreak)
    rw [if_neg hbreak]
    exact dropBreak_of_ne hd hd' more

theorem readToken_basic (text : String) (h : EndsString rest) :
    readToken (Form.basic.write text.toList ++ rest) = some (.string text, rest) := by
  have hopening : ∀ after, basicText text.toList ++ '"' :: rest ≠ '"' :: '"' :: after := by
    intro after heq
    cases htext : text.toList with
    | nil =>
      rw [htext] at heq
      have hrest : rest = '"' :: after := (List.cons.inj heq).2
      exact h.1 (by rw [hrest]; rfl)
    | cons c chars =>
      have hcons : basicText (c :: chars) ++ '"' :: rest =
          (if c = '"' then ['\\', '"'] else escaped c) ++ (basicText chars ++ '"' :: rest) := by
        simp [basicText]
      rw [htext, hcons] at heq
      by_cases hquote : c = '"'
      · rw [if_pos hquote] at heq
        cases heq
      · rw [if_neg hquote] at heq
        rcases escaped_cases c with ⟨hself, -⟩ | ⟨code, hcode, -⟩
        · rw [hself] at heq
          exact hquote (List.cons.inj heq).1
        · rw [hcode] at heq
          cases heq
  have hwrite : Form.basic.write text.toList ++ rest =
      '"' :: (basicText text.toList ++ '"' :: rest) := by
    simp [Form.write]
  rw [hwrite, readToken_quote (.inl rfl), readString_basic hopening, readBasic_basicText]
  simp [stringToken]

theorem readToken_literal {text : String} (htext : Form.literal.admits text.toList = true)
    (h : EndsString rest) :
    readToken (Form.literal.write text.toList ++ rest) = some (.string text, rest) := by
  simp only [Form.admits, Bool.and_eq_true, Bool.not_eq_true', List.contains_eq_mem,
    decide_eq_false_iff_not] at htext
  obtain ⟨hneeds, hbreak, hquote⟩ := htext
  have hchars : ∀ c ∈ text.toList, c ≠ '\'' ∧ isForbidden c = false := by
    intro c hc
    have hcode : needsCode c = false := by simpa using List.any_eq_false.1 hneeds c hc
    have hne : c ≠ '\n' := fun heq => hbreak (heq ▸ hc)
    exact ⟨fun heq => hquote (heq ▸ hc), by simpa [needsCode, hne] using hcode⟩
  have hopening : ∀ after, text.toList ++ '\'' :: rest ≠ '\'' :: '\'' :: after := by
    intro after heq
    cases hcases : text.toList with
    | nil =>
      rw [hcases] at heq
      have hrest : rest = '\'' :: after := (List.cons.inj heq).2
      exact h.2 (by rw [hrest]; rfl)
    | cons c chars =>
      rw [hcases] at heq
      exact (hchars c (by rw [hcases]; exact List.mem_cons_self)).1 (List.cons.inj heq).1
  have hwrite : Form.literal.write text.toList ++ rest =
      '\'' :: (text.toList ++ '\'' :: rest) := by
    simp [Form.write]
  rw [hwrite, readToken_quote (.inr rfl), readString_literal hopening,
    readLiteral_append hchars]
  simp [stringToken]

theorem readToken_longBasic (text : String) (h : EndsString rest) :
    readToken (Form.longBasic.write text.toList ++ rest) = some (.longString text, rest) := by
  have hwrite : Form.longBasic.write text.toList ++ rest = '"' :: '"' :: '"' ::
      ((if text.toList.contains '\n' then ['\n'] else []) ++
        (longBasicText 0 text.toList ++ '"' :: '"' :: '"' :: rest)) := by
    simp [Form.write]
  have hfirst : text.toList.contains '\n' = false →
      ∃ d more, longBasicText 0 text.toList ++ '"' :: '"' :: '"' :: rest = d :: more ∧
        d ≠ '\n' ∧ d ≠ '\r' := by
    intro hbreak
    cases htext : text.toList with
    | nil => exact ⟨'"', _, rfl, by decide, by decide⟩
    | cons c chars =>
      by_cases hquote : c = '"'
      · subst hquote
        exact ⟨'"', _, by rw [longBasicText_quote (by decide)]; rfl, by decide, by decide⟩
      · have hc : c ≠ '\n' := by
          rintro rfl
          simp [htext] at hbreak
        rw [longBasicText_other 0 hquote hc]
        rcases escaped_cases c with ⟨hself, hstands⟩ | ⟨code, hcode, -⟩
        · exact ⟨c, _, by rw [hself]; rfl, hc, hstands.ne_return⟩
        · exact ⟨'\\', _, by rw [hcode]; rfl, by decide, by decide⟩
  have hread := readLongBasic_longBasicText 0 text.toList h.1
  rw [hwrite, readToken_quote (.inl rfl)]
  simp only [readString, if_true]
  rw [dropBreak_firstBreak hfirst, hread]
  simp [stringToken]

theorem readToken_longLiteral {text : String} (htext : Form.longLiteral.admits text.toList = true)
    (h : EndsString rest) :
    readToken (Form.longLiteral.write text.toList ++ rest) = some (.longString text, rest) := by
  simp only [Form.admits, Bool.and_eq_true, Bool.not_eq_true', decide_eq_true_eq] at htext
  obtain ⟨hneeds, hrun⟩ := htext
  have hchars : ∀ c ∈ text.toList, needsCode c = false := fun c hc => by
    simpa using List.any_eq_false.1 hneeds c hc
  have hwrite : Form.longLiteral.write text.toList ++ rest = '\'' :: '\'' :: '\'' ::
      ((if text.toList.contains '\n' then ['\n'] else []) ++
        (text.toList ++ '\'' :: '\'' :: '\'' :: rest)) := by
    simp [Form.write]
  have hfirst : text.toList.contains '\n' = false →
      ∃ d more, text.toList ++ '\'' :: '\'' :: '\'' :: rest = d :: more ∧
        d ≠ '\n' ∧ d ≠ '\r' := by
    intro hbreak
    cases hcases : text.toList with
    | nil => exact ⟨'\'', _, rfl, by decide, by decide⟩
    | cons c chars =>
      have hc : c ≠ '\n' := by
        rintro rfl
        simp [hcases] at hbreak
      have hreturn : c ≠ '\r' := by
        rintro rfl
        exact absurd (hchars '\r' (by simp [hcases])) (by decide)
      exact ⟨c, _, rfl, hc, hreturn⟩
  have hread := readLongLiteral_append hchars hrun h.2
  rw [hwrite, readToken_quote (.inr rfl)]
  simp only [readString]
  rw [if_neg (by decide), dropBreak_firstBreak hfirst, hread]
  simp [stringToken]

/-! ## Forms -/

/-- The token of a string in a form. -/
def Form.token (form : Form) (text : String) : Token :=
  match form with
  | .basic | .literal => .string text
  | .longBasic | .longLiteral => .longString text

/-- A form in which the text may be written: it admits the text, or it has escapes. -/
def Form.Fits (form : Form) (text : List Char) : Prop :=
  form = .basic ∨ form = .longBasic ∨ form.admits text = true

theorem Form.fits_choose {resort : Form} (hresort : resort.Fits text) (forms : List Form) :
    (choose text resort forms).Fits text := by
  induction forms with
  | nil => exact hresort
  | cons form forms ih =>
    rw [choose]
    by_cases hform : form.admits text = true
    · rw [if_pos hform]
      exact .inr (.inr hform)
    · rw [if_neg hform]
      exact ih

/-- A written string is read as one token. -/
theorem readToken_write {form : Form} {text : String} (hform : form.Fits text.toList)
    (h : EndsString rest) :
    readToken (form.write text.toList ++ rest) = some (form.token text, rest) := by
  cases form with
  | basic => exact readToken_basic text h
  | longBasic => exact readToken_longBasic text h
  | literal => exact readToken_literal (by simpa [Form.Fits] using hform) h
  | longLiteral => exact readToken_longLiteral (by simpa [Form.Fits] using hform) h

/-- The form of a value. -/
theorem readToken_valueText (text : String) (h : EndsString rest) :
    ∃ token, (token = .string text ∨ token = .longString text) ∧
      readToken (valueText text ++ rest) = some (token, rest) := by
  have hfits : (Form.ofValue text.toList).Fits text.toList := by
    refine Form.fits_choose ?_ _
    by_cases hbreak : text.toList.contains '\n' = true
    · rw [if_pos hbreak]
      exact .inr (.inl rfl)
    · rw [if_neg hbreak]
      exact .inl rfl
  refine ⟨_, ?_, readToken_write hfits h⟩
  cases Form.ofValue text.toList with
  | basic | literal => exact .inl rfl
  | longBasic | longLiteral => exact .inr rfl

theorem punctuation?_of_isWordChar (h : isWordChar c = true) : punctuation? c = none := by
  unfold punctuation?
  iterate 8
    split
    · rename_i heq
      subst heq
      exact absurd h (by decide)
  rfl

theorem readToken_word (hc : isWordChar c = true) (hchars : ∀ d ∈ text, isWordChar d = true)
    (hrest : ∀ d, rest.head? = some d → isWordChar d = false) :
    readToken (c :: text ++ rest) = some (.word (String.ofList (c :: text)), rest) := by
  have hquote : ¬ (c = '"' ∨ c = '\'') := by
    rintro (rfl | rfl) <;> exact absurd hc (by decide)
  have hreturn : c ≠ '\r' := by
    rintro rfl
    exact absurd hc (by decide)
  simp [readToken, punctuation?_of_isWordChar hc, hquote, hreturn, hc,
    takeWhile_stretch hchars hrest, dropWhile_stretch hchars hrest]

/-- A key is written as a word or in quotes. -/
theorem readToken_keyText (text : String) (h : EndsString rest)
    (hrest : ∀ d, rest.head? = some d → isWordChar d = false) :
    ∃ token, (token = .word text ∨ token = .string text) ∧
      readToken (keyText text ++ rest) = some (token, rest) := by
  unfold keyText
  by_cases hword : (!text.toList.isEmpty && text.toList.all isWordChar) = true
  · rw [if_pos hword]
    simp only [Bool.and_eq_true, Bool.not_eq_true', List.all_eq_true] at hword
    obtain ⟨hne, hchars⟩ := hword
    cases htext : text.toList with
    | nil => simp [htext] at hne
    | cons c chars =>
      rw [htext] at hchars
      have hread := readToken_word (hchars c List.mem_cons_self)
        (fun d hd => hchars d (List.mem_cons_of_mem c hd)) hrest
      have hsame : String.ofList (c :: chars) = text := by rw [← htext, String.ofList_toList]
      exact ⟨.word text, .inl rfl, by rw [hread, hsame]⟩
  · rw [if_neg hword]
    have hshort : Form.choose text.toList .basic [.basic, .literal] = .basic ∨
        Form.choose text.toList .basic [.basic, .literal] = .literal := by
      simp only [Form.choose]
      split
      · exact .inl rfl
      · split
        · exact .inr rfl
        · exact .inl rfl
    refine ⟨.string text, .inr rfl, ?_⟩
    rw [readToken_write (Form.fits_choose (.inl rfl) _) h]
    rcases hshort with hform | hform <;> rw [hform, Form.token]

/-! ## Lines -/

/-- What the tokens of a text are, by its first character that is neither blank nor in a comment. -/
theorem tokens_eq (text : List Char) :
    tokens text =
      match skipBlanks text with
      | none => none
      | some [] => some []
      | some (c :: rest) =>
        match readToken (c :: rest) with
        | none => none
        | some (token, after) => (tokens after).map (token :: ·) := by
  rw [tokens]
  split
  · simp [*]
  · simp [*]
  · simp only [*]
    split <;> simp [*]

theorem tokens_blank (hblank : isBlank c = true) (text : List Char) :
    tokens (c :: text) = tokens text := by
  have hskip : skipBlanks (c :: text) = skipBlanks text := by
    simp [skipBlanks, hblank]
  rw [tokens_eq (c :: text), tokens_eq text, hskip]

/-- A token is neither a blank nor a comment. -/
theorem skipBlanks_of_readToken {token : Token} (h : readToken text = some (token, rest)) :
    skipBlanks text = some text := by
  cases text with
  | nil => cases h
  | cons c text =>
    have hblank : isBlank c = false := by
      cases hc : isBlank c with
      | false => rfl
      | true =>
        simp only [isBlank, Bool.or_eq_true, beq_iff_eq] at hc
        rcases hc with rfl | rfl <;> cases h
    have hcomment : c ≠ '#' := by
      rintro rfl
      cases h
    simp [skipBlanks, skipComment, hblank, hcomment]

theorem tokens_of_readToken {token : Token} (h : readToken text = some (token, rest)) :
    tokens text = (tokens rest).map (token :: ·) := by
  rw [tokens_eq, skipBlanks_of_readToken h]
  cases text with
  | nil => cases h
  | cons c text => simp only [h]

theorem tokens_nil : tokens [] = some [] := by
  rw [tokens_eq]
  rfl

end Toml

namespace Configuration

open Toml

/-- The statement of an entry. -/
def statementOf (entry : String × String) : Statement := .pair [entry.1] (.string entry.2)

/-- The tokens of some lines are the statements of some entries. -/
def Denotes (found : List Toml.Token) (entries : List (String × String)) : Prop :=
  ∀ done, found.foldlM Builder.step ⟨done, .lineStart⟩ =
    some ⟨done ++ entries.map statementOf, .lineStart⟩

theorem denotes_line {key value : Toml.Token} {name id : String}
    (hkey : key = .word name ∨ key = .string name)
    (hvalue : value = .string id ∨ value = .longString id) :
    Denotes [key, .equals, value, .lineBreak] [(name, id)] := by
  intro done
  rcases hkey with rfl | rfl <;> rcases hvalue with rfl | rfl <;> rfl

theorem Denotes.append {found more : List Toml.Token} {entries others : List (String × String)}
    (h : Denotes found entries) (h' : Denotes more others) :
    Denotes (found ++ more) (entries ++ others) := by
  intro done
  rw [List.foldlM_append, h done]
  have hmore := h' (done ++ entries.map statementOf)
  rw [List.append_assoc, ← List.map_append] at hmore
  exact hmore

/-- A line is cut into the tokens of a key and a string, whatever follows it. -/
theorem tokens_tomlLine (name id : String) (rest : List Char) :
    ∃ found, Denotes found [(name, id)] ∧
      tokens (tomlLine name id ++ rest) = (tokens rest).map (found ++ ·) := by
  have hend : EndsString ('\n' :: rest) := ⟨by simp, by simp⟩
  have hendKey : EndsString (' ' :: '=' :: ' ' :: (valueText id ++ '\n' :: rest)) :=
    ⟨by simp, by simp⟩
  obtain ⟨value, hvalue, hread⟩ := readToken_valueText id hend
  obtain ⟨key, hkey, hreadKey⟩ := readToken_keyText name hendKey (by simp [isWordChar])
  refine ⟨[key, .equals, value, .lineBreak], denotes_line hkey hvalue, ?_⟩
  have hline : tomlLine name id ++ rest =
      keyText name ++ ' ' :: '=' :: ' ' :: (valueText id ++ '\n' :: rest) := by
    simp [tomlLine]
  have hequals : readToken ('=' :: ' ' :: (valueText id ++ '\n' :: rest)) =
      some (.equals, ' ' :: (valueText id ++ '\n' :: rest)) := rfl
  have hbreak : readToken ('\n' :: rest) = some (.lineBreak, rest) := rfl
  rw [hline, tokens_of_readToken hreadKey, tokens_blank (by decide), tokens_of_readToken hequals,
    tokens_blank (by decide), tokens_of_readToken hread, tokens_of_readToken hbreak]
  simp [Function.comp_def]

theorem tokens_tomlLines (entries : List (String × String)) :
    ∃ found, Denotes found entries ∧
      tokens (entries.flatMap fun (name, id) => tomlLine name id) = some found := by
  induction entries with
  | nil => exact ⟨[], fun done => by simp, tokens_nil⟩
  | cons entry entries ih =>
    obtain ⟨name, id⟩ := entry
    obtain ⟨more, hmore, hlines⟩ := ih
    obtain ⟨found, hfound, hline⟩ :=
      tokens_tomlLine name id (entries.flatMap fun (name, id) => tomlLine name id)
    refine ⟨found ++ more, hfound.append hmore, ?_⟩
    rw [List.flatMap_cons, hline, hlines]
    rfl

theorem header_append (lines : List Char) :
    "[sources]\n".toList ++ lines = '[' :: ("sources".toList ++ ']' :: '\n' :: lines) := by
  simp

/-- The lines below the header are the entries. -/
theorem statements_writeToml (c : Configuration) :
    statements c.writeToml = some (.header ["sources"] :: c.sources.entries.map statementOf) := by
  obtain ⟨found, hfound, hlines⟩ := tokens_tomlLines c.sources.entries
  have htext : dropMark c.writeToml.toList = '[' :: ("sources".toList ++ ']' :: '\n' ::
      (c.sources.entries.flatMap fun (name, id) => tomlLine name id)) := by
    have hchars : c.writeToml.toList = "[sources]\n".toList ++
        (c.sources.entries.flatMap fun (name, id) => tomlLine name id) := String.toList_ofList
    have hmark : ∀ lines, dropMark ('[' :: lines) = '[' :: lines := fun lines => by
      rw [dropMark, if_neg (by decide)]
    rw [hchars, header_append, hmark]
  have hword : ∀ after, readToken ("sources".toList ++ ']' :: after) =
      some (.word "sources", ']' :: after) := by
    intro after
    have hchars : ∀ d ∈ "ources".toList, isWordChar d = true :=
      List.all_eq_true.1 (by decide)
    exact readToken_word (c := 's') rfl hchars (by simp [isWordChar])
  have hopen : ∀ after, readToken ('[' :: after) = some (.openBracket, after) := fun _ => rfl
  have hclose : ∀ after, readToken (']' :: after) = some (.closeBracket, after) := fun _ => rfl
  have hbreak : ∀ after, readToken ('\n' :: after) = some (.lineBreak, after) := fun _ => rfl
  have htokens : tokens (dropMark c.writeToml.toList) =
      some (Toml.Token.openBracket :: .word "sources" :: .closeBracket :: .lineBreak :: found) := by
    rw [htext, tokens_of_readToken (hopen _), tokens_of_readToken (hword _),
      tokens_of_readToken (hclose _), tokens_of_readToken (hbreak _), hlines]
    rfl
  have hbuilder : (Toml.Token.openBracket :: .word "sources" :: .closeBracket :: .lineBreak ::
      found).foldlM Builder.step .start =
        some ⟨.header ["sources"] :: c.sources.entries.map statementOf, .lineStart⟩ :=
    hfound [.header ["sources"]]
  simp [statements, htokens, statementsOf, hbuilder, Builder.result?]

/-! ## Tables -/

/-- Entries with different names are added one after the other. -/
theorem foldlM_step_entries {pairs entries : List (String × String)}
    (h : Ascending (pairs ++ entries)) :
    (entries.map statementOf).foldlM SourceTable.step (.underHeader pairs) =
      some (.underHeader (pairs ++ entries)) := by
  induction entries generalizing pairs with
  | nil => simp
  | cons entry entries ih =>
    obtain ⟨name, id⟩ := entry
    have hnew : (pairs.any fun (other, _) => other == name) = false := by
      refine List.any_eq_false.2 fun p hp heq => ?_
      have hless : p.1 < name := (List.pairwise_append.1 h).2.2 p hp _ List.mem_cons_self
      rw [beq_iff_eq.1 heq] at hless
      exact String.lt_irrefl _ hless
    have hstep : SourceTable.step (.underHeader pairs) (statementOf (name, id)) =
        some (.underHeader (pairs ++ [(name, id)])) := by
      simp [SourceTable.step, statementOf, SourceTable.addPair?, hnew]
    rw [List.map_cons, List.foldlM_cons, hstep]
    have happend : pairs ++ (name, id) :: entries = pairs ++ [(name, id)] ++ entries := by simp
    rw [happend] at h ⊢
    exact ih h

theorem readToml_writeToml (c : Configuration) : readToml c.writeToml = some c := by
  have hascending : Ascending ([] ++ c.sources.entries) := c.sources.ascending
  have hentries := foldlM_step_entries hascending
  have htable : (.header ["sources"] :: c.sources.entries.map statementOf).foldlM
      SourceTable.step .absent = some (.underHeader c.sources.entries) := by
    rw [List.foldlM_cons]
    exact hentries
  simp [readToml, statements_writeToml, ofStatements?, htable, SourceTable.pairs, ofPairs_entries]

end Configuration

end Eligibility
