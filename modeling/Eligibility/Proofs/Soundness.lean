import Eligibility.Proofs.Fragments
import Eligibility.Proofs.Grammar
import Eligibility.Proofs.Runs

/-!
# Soundness of reading

What is read from a text is derived from it (`Expression.derives_of_parse`). The scans come first:
what each of them moves over is the symbol that it reads, in the text that is left where it starts.
A level is read operand by operand, and what it still lacks is described by `Level.Completes`. A
group is cut out and read apart from what follows it, so the induction is about every text that goes
on where the group closes. In particular the spellings of an expression are derived
(`Spells.derives`).
-/

namespace Eligibility

/-! ## Stretches of text -/

namespace Cursor

variable {c : Cursor}

theorem exists_blanks (c : Cursor) : ∃ u, AllBlank u ∧ c.rest = u ++ c.skipBlanks.rest :=
  ⟨c.rest.takeWhile isBlank, (takeWhile_dropWhile isBlank c.rest).1,
    List.takeWhile_append_dropWhile.symm⟩

theorem isBlank_of_skipBlanks {d : Char} (h : c.skipBlanks.current? = some d) :
    isBlank d = false :=
  (takeWhile_dropWhile isBlank c.rest).2 d h

theorem rest_eq_cons {d : Char} (h : c.current? = some d) : c.rest = d :: c.advance.rest := by
  obtain ⟨rest, offset⟩ := c
  cases rest with
  | nil => cases h
  | cons e rest =>
    obtain rfl : e = d := Option.some.inj h
    rfl

theorem eq_of_mem_head? {d e : Char} {w t : List Char} (hd : c.current? = some d)
    (hw : c.rest = w ++ t) (he : e ∈ w.head?) : e = d := by
  have hhead : c.rest.head? = some e := by
    rw [hw, List.head?_append, Option.mem_def.1 he]
    rfl
  exact Option.some.inj (hhead.symm.trans hd)

theorem skipBlanks_skipBlanks (c : Cursor) : c.skipBlanks.skipBlanks = c.skipBlanks := by
  have hhead : ∀ d ∈ c.skipBlanks.rest.head?, isBlank d = false :=
    fun d hd => isBlank_of_skipBlanks hd
  exact skipBlanks_of_head hhead c.skipBlanks.offset

end Cursor

/-! ## Tokens -/

/-- The token stands at the beginning of the first text, with the second one after it. -/
inductive Token.Spans (token : Token) : List Char → List Char → Prop where
  | quoted {s t : List Char} (hquoted : token.quoted = true) (h : DerivesQuoted token.text s t) :
      Spans token s t
  | bare {s t : List Char} (hquoted : token.quoted = false) (h : DerivesRun token.text.toList s t) :
      Spans token s t

theorem Token.Spans.derivesToken {token : Token} {s t : List Char} (h : token.Spans s t) :
    DerivesToken token.text s t := by
  cases h with
  | quoted _ h => exact .quoted h
  | bare _ h => exact .bare h

theorem Token.Spans.derivesKeyword {token : Token} {s t : List Char} {keyword : String}
    (h : token.Spans s t) (hquoted : token.quoted = false)
    (hkeyword : SpellsKeyword keyword token.text.toList) : DerivesKeyword keyword s t := by
  cases h with
  | quoted hquoted' _ =>
    rw [hquoted] at hquoted'
    cases hquoted'
  | bare _ h => exact .mk h hkeyword

theorem spellsKeyword_of_sameWord {keyword word : String} (hplain : IsPlain keyword)
    (h : sameWord word keyword = true) : SpellsKeyword keyword word.toList := by
  have hsame : word.toList.map Char.toLower = keyword.toList.map Char.toLower := by
    simpa [sameWord] using h
  rw [SpellsKeyword, hsame, hplain.2.1]

theorem Token.Spans.derivesKeyword_of_isKeyword {token : Token} {s t : List Char} {keyword : String}
    (h : token.Spans s t) (hplain : IsPlain keyword) (hkeyword : token.isKeyword keyword = true) :
    DerivesKeyword keyword s t := by
  simp only [isKeyword, Bool.and_eq_true, Bool.not_eq_true'] at hkeyword
  exact h.derivesKeyword hkeyword.1 (spellsKeyword_of_sameWord hplain hkeyword.2)

/-- A word that is found among keywords is the one that it spells. -/
theorem Token.Spans.derivesKeyword_of_find? {token : Token} {s t : List Char} {α : Type}
    {keyword : α → String} {all : List α} {x : α} (h : token.Spans s t)
    (hplain : ∀ x, IsPlain (keyword x))
    (hfind : (if token.quoted then none
      else all.find? fun x => sameWord (keyword x) token.text) = some x) :
    DerivesKeyword (keyword x) s t := by
  cases hquoted : token.quoted with
  | true => simp [hquoted] at hfind
  | false =>
    simp only [hquoted, Bool.false_eq_true, if_false] at hfind
    have hsame := List.find?_some hfind
    simp only [sameWord_comm (keyword x)] at hsame
    exact h.derivesKeyword hquoted (spellsKeyword_of_sameWord (hplain x) hsame)

namespace Scan

variable {c next : Cursor} {token : Token}

theorem takeUntil_eq_ok {stop : Char → Bool} {text : String}
    (h : takeUntil stop false c = .ok text next) :
    ∃ w, text = String.ofList w ∧ c.rest = w ++ next.rest ∧ (∀ d ∈ w, stop d = false) ∧
      ∀ d ∈ next.rest.head?, stop d = true := by
  unfold takeUntil at h
  simp only [Bool.false_and, Bool.false_eq_true, if_false] at h
  cases h
  obtain ⟨htaken, hhead⟩ := takeWhile_dropWhile (!stop ·) c.rest
  refine ⟨c.rest.takeWhile (!stop ·), rfl, List.takeWhile_append_dropWhile.symm, ?_, ?_⟩
  · intro d hd
    simpa using htaken d hd
  · intro d hd
    simpa using hhead d hd

theorem derivesQuoted_of_readQuoted {quote : Char} {text : String} (hquote : isQuote quote = true)
    (hc : c.current? = some quote) (h : readQuoted quote c = .ok text next) {u : List Char}
    (hu : AllBlank u) : DerivesQuoted text (u ++ c.rest) next.rest := by
  obtain ⟨rest, offset⟩ := c
  have hrest := Cursor.rest_eq_cons hc
  simp only at hrest
  rw [hrest] at h
  obtain ⟨inner, after, htail, hafter, rfl, rfl⟩ := readQuoted_eq_ok h
  have hderives := DerivesQuoted.mk (x := String.ofList inner) hu hquote hafter
  rw [String.toList_ofList] at hderives
  rw [hrest, htail]
  simpa using hderives

theorem eq_skipBlanks_of_skipSpace (h : skipSpace c = .ok () next) : next = c.skipBlanks := by
  unfold skipSpace at h
  dsimp only at h
  split at h
  · cases h
  · cases h
    rfl

/-- A token is read from where it stands, or nothing is read because a delimiter stands there. -/
theorem readToken_cases (h : readToken c = .ok token next) :
    (token.isEmpty = false ∧ token.Spans c.rest next.rest) ∨
      (token.isEmpty = true ∧ next.rest = c.skipBlanks.rest) := by
  unfold readToken at h
  obtain ⟨_, start, hstart, h⟩ := bind_eq_ok.1 h
  obtain ⟨d, hd⟩ := exists_current?_of_skipSpace hstart
  obtain rfl := eq_skipBlanks_of_skipSpace hstart
  obtain ⟨u, hu, hrest⟩ := c.exists_blanks
  rw [bind_get, hd] at h
  rw [hrest]
  cases hquote : isQuote d with
  | true =>
    simp only [Option.filter_some, hquote, if_true] at h
    obtain ⟨text, after, hread, h⟩ := bind_eq_ok.1 h
    cases h
    exact .inl ⟨rfl, .quoted rfl (derivesQuoted_of_readQuoted hquote hd hread hu)⟩
  | false =>
    simp only [Option.filter_some, hquote, Bool.false_eq_true, if_false] at h
    obtain ⟨text, after, htake, h⟩ := bind_eq_ok.1 h
    cases h
    obtain ⟨w, rfl, hw, hplain, hstop⟩ := takeUntil_eq_ok htake
    by_cases hne : w = []
    · subst hne
      exact .inr ⟨rfl, hw.symm⟩
    · have hhead : ∀ e ∈ w.head?, isQuote e = false := by
        intro e he
        rw [Cursor.eq_of_mem_head? hd hw he, hquote]
      have hrun := DerivesRun.mk hu hne hhead hplain hstop
      refine .inl ⟨?_, .bare rfl ?_⟩
      · simpa [Token.isEmpty] using hne
      · simpa [hw] using hrun

theorem spans_of_readToken (h : readToken c = .ok token next) (hne : token.isEmpty = false) :
    token.Spans c.rest next.rest := by
  rcases readToken_cases h with ⟨-, hspans⟩ | ⟨hempty, -⟩
  · exact hspans
  · rw [hempty] at hne
    cases hne

theorem rest_of_readToken_isEmpty (h : readToken c = .ok token next)
    (hempty : token.isEmpty = true) : next.rest = c.skipBlanks.rest := by
  rcases readToken_cases h with ⟨hne, -⟩ | ⟨-, hrest⟩
  · rw [hempty] at hne
    cases hne
  · exact hrest

theorem not_unexpected {α : Type} {a : α} : unexpected c ≠ .ok a next := by
  intro h
  unfold unexpected at h
  split at h <;> cases h

theorem spans_of_readWord (h : readWord c = .ok token next) : token.Spans c.rest next.rest := by
  unfold readWord at h
  obtain ⟨token', mid, hread, h⟩ := bind_eq_ok.1 h
  split at h
  · exact absurd h not_unexpected
  · rename_i hne
    cases h
    exact spans_of_readToken hread (Bool.eq_false_iff.2 hne)

/-! ## Comparisons -/

theorem derivesMark_of_current? {d : Char} (h : c.skipBlanks.current? = some d) :
    DerivesMark d c.rest c.skipBlanks.advance.rest := by
  obtain ⟨u, hu, hrest⟩ := c.exists_blanks
  rw [hrest, Cursor.rest_eq_cons h]
  exact .mk hu

theorem derivesMark_of_expectDot {after : String} (h : expectDot after c = .ok () next) :
    DerivesMark '.' c.rest next.rest := by
  unfold expectDot at h
  dsimp only at h
  split at h
  · rename_i hdot
    cases h
    exact derivesMark_of_current? hdot
  · cases h

theorem scopeOfKind_cases {source : String} {kind : Token} {scope : Scope}
    (h : scopeOfKind source kind = .ok scope) :
    (kind.isKeyword "attribute" = true ∧ scope = .account source) ∨
      (kind.isKeyword "entitlement" = true ∧ scope = .entitlement source) := by
  unfold scopeOfKind at h
  split at h
  · rename_i hkind
    cases h
    exact .inl ⟨hkind, rfl⟩
  · split at h
    · rename_i hkind
      cases h
      exact .inr ⟨hkind, rfl⟩
    · cases h

theorem derivesAttribute_of_readAttribute {first : Token} {a : Attribute} {s : List Char}
    (hfirst : first.Spans s c.rest) (h : readAttribute first c = .ok a next) :
    DerivesAttribute a s next.rest := by
  unfold readAttribute at h
  obtain ⟨_, c₁, hdot, h⟩ := bind_eq_ok.1 h
  have hdot := derivesMark_of_expectDot hdot
  split at h
  · rename_i hidentity
    obtain ⟨property, c₂, hproperty, h⟩ := bind_eq_ok.1 h
    cases h
    have hkeyword := hfirst.derivesKeyword_of_isKeyword isPlain_identity hidentity
    exact .identity hkeyword hdot (spans_of_readWord hproperty).derivesToken
  · obtain ⟨kind, c₂, hkind, h⟩ := bind_eq_ok.1 h
    obtain ⟨_, c₃, hdot', h⟩ := bind_eq_ok.1 h
    have hkind := spans_of_readWord hkind
    have hdot' := derivesMark_of_expectDot hdot'
    cases hscope : scopeOfKind first.text kind with
    | error e =>
      rw [hscope] at h
      cases h
    | ok scope =>
      rw [hscope] at h
      obtain ⟨property, c₄, hproperty, h⟩ := bind_eq_ok.1 h
      cases h
      have hsource := hfirst.derivesToken
      have hproperty := (spans_of_readWord hproperty).derivesToken
      rcases scopeOfKind_cases hscope with ⟨hkeyword, rfl⟩ | ⟨hkeyword, rfl⟩
      · have hkeyword := hkind.derivesKeyword_of_isKeyword isPlain_attribute hkeyword
        exact .account hsource hdot hkeyword hdot' hproperty
      · have hkeyword := hkind.derivesKeyword_of_isKeyword isPlain_entitlement hkeyword
        exact .entitlement hsource hdot hkeyword hdot' hproperty

theorem derivesKeyword_of_readOperator {op : Operator} (h : readOperator c = .ok op next) :
    DerivesKeyword op.keyword c.rest next.rest := by
  unfold readOperator at h
  obtain ⟨token, mid, hread, h⟩ := bind_eq_ok.1 h
  cases hop : if token.quoted then none else Operator.ofKeyword? token.text with
  | none =>
    rw [hop] at h
    cases h
  | some op' =>
    rw [hop] at h
    cases h
    exact (spans_of_readWord hread).derivesKeyword_of_find? Operator.isPlain_keyword hop

/-! ## Lists of values -/

/-- An element that is read, provided that the text goes on. -/
theorem derivesElement_of_readValue {opening : Nat} {first : Bool} {x : String}
    (h : readValue opening first c = .ok x next) (hnext : next.rest ≠ []) :
    DerivesElement x c.rest next.rest := by
  obtain ⟨u, hu, hrest⟩ := c.exists_blanks
  unfold readValue at h
  dsimp only at h
  split at h
  · cases h
  · rename_i d hd
    split at h
    · cases h
    · split at h
      · rename_i hquote
        rw [hrest]
        exact .quoted (derivesQuoted_of_readQuoted hquote hd h hu)
      · rename_i hquote
        obtain ⟨_, htake, rfl⟩ := map_eq_ok.1 h
        obtain ⟨w, rfl, hw, hplain, hstop⟩ := takeUntil_eq_ok htake
        have hstart : ∀ e ∈ w.head?, isBlank e = false ∧ isQuote e = false := by
          intro e he
          rw [Cursor.eq_of_mem_head? hd hw he]
          exact ⟨Cursor.isBlank_of_skipBlanks hd, Bool.eq_false_iff.2 hquote⟩
        obtain ⟨e, tail, htail⟩ := List.exists_cons_of_ne_nil hnext
        rw [hrest, hw, ← List.append_assoc]
        refine .bare hu hstart (fun e he => ?_) ⟨e, tail, htail, ?_⟩
        · simpa using hplain e he
        · simpa using hstop e (by simp [htail])

/-- The character that stands after an element. -/
def AfterValue.mark : AfterValue → Char
  | comma => ','
  | closing => ')'

theorem derivesMark_of_readAfterValue {opening : Nat} {after : AfterValue}
    (h : readAfterValue opening c = .ok after next) :
    DerivesMark after.mark c.rest next.rest := by
  unfold readAfterValue at h
  dsimp only at h
  split at h
  · cases h
  · rename_i d hd
    split at h
    · rename_i hcomma
      subst hcomma
      cases h
      exact derivesMark_of_current? hd
    · split at h
      · rename_i hclosing
        subst hclosing
        cases h
        exact derivesMark_of_current? hd
      · cases h

theorem derives_of_readElement {opening : Nat} {first : Bool} {x : String} {after : AfterValue}
    (h : readElement opening first c = .ok (x, after) next) :
    ∃ b, DerivesElement x c.rest b ∧ DerivesMark after.mark b next.rest := by
  unfold readElement at h
  obtain ⟨value, mid, hvalue, h⟩ := bind_eq_ok.1 h
  obtain ⟨after', stop, hafter, h⟩ := bind_eq_ok.1 h
  cases h
  have hmark := derivesMark_of_readAfterValue hafter
  exact ⟨mid.rest, derivesElement_of_readValue hvalue hmark.ne_nil, hmark⟩

theorem derivesElements_of_readElements {opening : Nat} {values xs : List String}
    (h : readElements opening values c = .ok xs next) :
    ∃ more b, xs = values ++ more ∧ DerivesElements more c.rest b ∧
      DerivesMark ')' b next.rest := by
  fun_induction readElements opening values c with
  | case1 => cases h
  | case2 values c x after hread =>
    cases h
    obtain ⟨b, hx, hclose⟩ := derives_of_readElement hread
    exact ⟨[x], b, rfl, .last hx, hclose⟩
  | case3 values c x after hread ih =>
    obtain ⟨a, hx, hcomma⟩ := derives_of_readElement hread
    obtain ⟨more, b, rfl, hmore, hclose⟩ := ih h
    exact ⟨x :: more, b, by simp, .cons hx hcomma hmore, hclose⟩

theorem current?_of_derivesMark {d : Char} {s t : List Char} (h : DerivesMark d s t)
    (hblank : isBlank d = false) (offset : Nat) :
    (⟨s, offset⟩ : Cursor).skipBlanks.current? = some d := by
  cases h with
  | mk hu => rw [Cursor.skipBlanks_append hu _ (by simpa using hblank), Cursor.current?_cons]

/-- No list of values is read that closes right where it opens. -/
theorem not_derivesMark_of_readElements {opening : Nat} {xs : List String}
    (h : readElements opening [] c = .ok xs next) (t : List Char) : ¬ DerivesMark ')' c.rest t := by
  intro hclose
  have hcurrent := current?_of_derivesMark hclose rfl c.offset
  have hvalue : readElement opening true c = .error (.emptyValueList opening) c.skipBlanks := by
    refine bind_error ?_
    unfold readValue
    simp [hcurrent]
  rw [readElements_error hvalue] at h
  cases h

theorem derivesLiteral_of_readLiteral {x : Literal} (h : readLiteral c = .ok x next) :
    DerivesLiteral x c.rest next.rest := by
  unfold readLiteral at h
  obtain ⟨token, mid, hread, h⟩ := bind_eq_ok.1 h
  split at h
  · rename_i hempty
    have hrest := rest_of_readToken_isEmpty hread hempty
    rw [bind_get] at h
    split at h
    · rename_i hopen
      obtain ⟨xs, hlist, rfl⟩ := map_eq_ok.1 h
      obtain ⟨more, b, hmore, hxs, hclose⟩ := derivesElements_of_readElements hlist
      obtain rfl : xs = more := hmore
      obtain ⟨u, hu, hblanks⟩ := c.exists_blanks
      rw [hblanks, ← hrest, Cursor.rest_eq_cons hopen]
      exact .list (.mk hu) (not_derivesMark_of_readElements hlist) hxs hclose
    · exact absurd h not_unexpected
  · rename_i hne
    cases h
    exact .single (spans_of_readToken hread (Bool.eq_false_iff.2 hne)).derivesToken

theorem derivesComparison_of_readComparison {first : Token} {x : Comparison} {s : List Char}
    (hfirst : first.Spans s c.rest) (h : readComparison first c = .ok x next) :
    DerivesComparison x s next.rest := by
  unfold readComparison at h
  obtain ⟨subject, c₁, hsubject, h⟩ := bind_eq_ok.1 h
  obtain ⟨operator, c₂, hoperator, h⟩ := bind_eq_ok.1 h
  obtain ⟨value, c₃, hvalue, h⟩ := bind_eq_ok.1 h
  cases h
  exact .mk (derivesAttribute_of_readAttribute hfirst hsubject)
    (derivesKeyword_of_readOperator hoperator) (derivesLiteral_of_readLiteral hvalue)

/-! ## Operands and connectives -/

theorem derivesOperand_of_readComparisonOperand {operand : Operand}
    (h : readComparisonOperand c = .ok operand next) :
    ∃ x, operand = .comparison x ∧ DerivesOperand (.comparison x) c.rest next.rest := by
  unfold readComparisonOperand at h
  obtain ⟨token, mid, hread, h⟩ := bind_eq_ok.1 h
  split at h
  · exact absurd h not_unexpected
  · rename_i hne
    obtain ⟨x, hx, rfl⟩ := map_eq_ok.1 h
    have hspans := spans_of_readToken hread (Bool.eq_false_iff.2 hne)
    exact ⟨x, rfl, .comparison (derivesComparison_of_readComparison hspans hx)⟩

theorem readToken_skipBlanks (c : Cursor) : readToken c.skipBlanks = readToken c := by
  have hskip : skipSpace c.skipBlanks = skipSpace c := by
    unfold skipSpace
    rw [Cursor.skipBlanks_skipBlanks]
  unfold readToken
  simp only [bind, EStateM.bind, hskip]

theorem readToken_bind_skipBlanks {α : Type} (f : Token → Scan α) (c : Cursor) :
    (readToken >>= f) c.skipBlanks = (readToken >>= f) c := by
  simp only [bind, EStateM.bind, readToken_skipBlanks]

/-- A comparison is read behind blanks. -/
theorem derivesOperand_of_readOperand {x : Comparison}
    (h : readOperand c.skipBlanks = .ok (.comparison x) next) :
    DerivesOperand (.comparison x) c.rest next.rest := by
  unfold readOperand at h
  split at h
  · obtain ⟨inside, -, hinside⟩ := map_eq_ok.1 h
    cases hinside
  · have hread : readComparisonOperand c.skipBlanks = readComparisonOperand c :=
      readToken_bind_skipBlanks _ c
    rw [hread] at h
    obtain ⟨_, hx, hderives⟩ := derivesOperand_of_readComparisonOperand h
    cases hx
    exact hderives

/-- A group opens behind blanks, and is closed behind its inside. -/
theorem derivesMark_of_readOperand {inside : Cursor}
    (h : readOperand c.skipBlanks = .ok (.group inside) next) :
    DerivesMark '(' c.rest (inside.rest ++ ')' :: next.rest) := by
  unfold readOperand at h
  split at h
  · rename_i hopen
    obtain ⟨_, hgroup, hinside⟩ := map_eq_ok.1 h
    cases hinside
    obtain ⟨text, rest, hrest, -, rfl, rfl⟩ := readGroup_eq_ok.1 hgroup
    have hinside : c.skipBlanks.advance.rest = text ++ ')' :: rest := hrest
    have hderives := derivesMark_of_current? hopen
    rw [hinside] at hderives
    exact hderives
  · obtain ⟨x, hx, -⟩ := derivesOperand_of_readComparisonOperand h
    cases hx

/-- A connective is read behind blanks. -/
theorem derivesKeyword_of_readConnective {op : Connective}
    (h : readConnective c.skipBlanks = .ok (op, token) next) :
    DerivesKeyword op.keyword c.rest next.rest := by
  have hread : readConnective c.skipBlanks = readConnective c := readToken_bind_skipBlanks _ c
  rw [hread] at h
  unfold readConnective at h
  obtain ⟨token', mid, htoken, h⟩ := bind_eq_ok.1 h
  cases hop : if token'.quoted then none else Connective.ofKeyword? token'.text with
  | none =>
    rw [hop] at h
    cases h
  | some op' =>
    rw [hop] at h
    cases h
    have hne : token.isEmpty = false := by
      refine Bool.eq_false_iff.2 fun hempty => ?_
      simp only [Token.isEmpty, Bool.and_eq_true, Bool.not_eq_true', beq_iff_eq] at hempty
      have hnone : Connective.ofKeyword? "" = none := by decide
      simp [hempty.1, hempty.2, hnone] at hop
    exact (spans_of_readToken htoken hne).derivesKeyword_of_find? Connective.isPlain_keyword hop

end Scan

/-! ## Levels -/

namespace Level

variable {level : Level} {c : Cursor} {op : Connective}

/-- The operands that the text has for a level, joined by the connective. If an operand has to
follow, it comes first, else a connective does. -/
inductive Completes (level : Level) (op : Connective) :
    List Expression → List Char → List Char → Prop where
  | operand {e : Expression} {es : List Expression} {s a t : List Char}
      (hexpecting : level.expecting = true) (he : DerivesOperand e s a)
      (hes : DerivesMore op es a t) : Completes level op (e :: es) s t
  | more {es : List Expression} {s t : List Char} (hexpecting : level.expecting = false)
      (hes : DerivesMore op es s t) : Completes level op es s t

theorem Completes.derivesMore {es : List Expression} {s t : List Char}
    (h : level.Completes op es s t) (hexpecting : level.expecting = false) :
    DerivesMore op es s t := by
  cases h with
  | operand hexpecting' _ _ =>
    rw [hexpecting] at hexpecting'
    cases hexpecting'
  | more _ hes => exact hes

theorem Completes.exists_operand {es : List Expression} {s t : List Char}
    (h : level.Completes op es s t) (hexpecting : level.expecting = true) :
    ∃ e es' a, es = e :: es' ∧ DerivesOperand e s a ∧ DerivesMore op es' a t := by
  cases h with
  | operand _ he hes => exact ⟨_, _, _, rfl, he, hes⟩
  | more hexpecting' _ =>
    rw [hexpecting] at hexpecting'
    cases hexpecting'

theorem derivesLevel_joined {e : Expression} {es : List Expression} {s a t : List Char}
    (he : DerivesOperand e s a) (hes : DerivesMore op es a t) :
    DerivesLevel (Expression.joined op (e :: es)) s t := by
  cases es with
  | nil =>
    cases hes
    exact .operand he
  | cons second es => exact .logical he hes (by simp)

/-- A level that is complete where nothing is left. -/
theorem eq_joined_of_finish {offset : Nat} {e : Expression} (h : level.finish offset = .ok e) :
    level.expecting = false ∧
      ∃ op, level.Admits op ∧ e = Expression.joined op level.operands := by
  obtain ⟨operands, connective, expecting⟩ := level
  cases operands with
  | nil => cases h
  | cons first operands =>
    unfold finish at h
    dsimp only at h
    split at h
    · cases h
    · rename_i hexpecting
      refine ⟨Bool.eq_false_iff.2 hexpecting, ?_⟩
      -- without a connective there is only one operand, and any connective will do
      cases connective with
      | none =>
        cases operands with
        | nil =>
          cases h
          exact ⟨.and, by simp [Admits], rfl⟩
        | cons second operands => cases h
      | some p =>
        refine ⟨p.1, by simp [Admits], ?_⟩
        cases operands with
        | nil =>
          cases h
          rfl
        | cons second operands =>
          cases h
          rfl

theorem join_eq_ok {token : Token} {joined : Level} (h : level.join op token = .ok joined) :
    joined.operands = level.operands ∧ joined.expecting = true ∧ level.Admits op ∧
      ∀ op', joined.Admits op' → op' = op := by
  unfold join at h
  split at h
  · rename_i hnone
    cases h
    exact ⟨rfl, rfl, by simp [Admits, hnone], fun op' h => (h _ rfl).symm⟩
  · rename_i first text hsome
    split at h
    · rename_i hfirst
      subst hfirst
      cases h
      refine ⟨rfl, rfl, by simp [Admits, hsome], fun op' h => (h (first, text) hsome).symm⟩
    · cases h

/-- What is read as the rest of a level completes it, in every text that goes on where a group
closes. -/
theorem completes_of_parse {e : Expression} {tail : List Char} (htail : ClosesGroup tail)
    (h : level.parse c = .ok e) :
    ∃ op es v, level.Admits op ∧ e = Expression.joined op (level.operands ++ es) ∧ AllBlank v ∧
      level.Completes op es (c.rest ++ tail) (v ++ tail) := by
  -- along the reading, with any tail: that of a group differs from that of the level around it
  fun_induction parse level c generalizing e tail with
  | case1 level c hend =>
    obtain ⟨hexpecting, op, hadmits, rfl⟩ := eq_joined_of_finish h
    obtain ⟨u, hu, hrest⟩ := c.exists_blanks
    have hnil : c.skipBlanks.rest = [] := by simpa [Cursor.isAtEnd] using hend
    rw [hnil, List.append_nil] at hrest
    refine ⟨op, [], u, hadmits, by rw [List.append_nil], hu, ?_⟩
    rw [hrest]
    exact .more hexpecting .nil
  | case2 => cases h
  | case3 level c hend hexpecting x next hread ih =>
    obtain ⟨op, es, v, hadmits, rfl, hv, hes⟩ := ih htail h
    have hoperand := Scan.derivesOperand_of_readOperand (readOperand_moved (k := 0) htail hread)
    refine ⟨op, .comparison x :: es, v, hadmits, by simp [push], hv, ?_⟩
    exact .operand hexpecting hoperand (hes.derivesMore rfl)
  | case4 => cases h
  | case5 level c hend hexpecting inside next hread e' hinside ih ih' =>
    obtain ⟨op, es, v, hadmits, rfl, hv, hes⟩ := ih' htail h
    obtain ⟨op', es', v', -, rfl, hv', hes'⟩ :=
      ih (closesGroup_cons (next.rest ++ tail)) hinside
    obtain ⟨first, others, a, rfl, hfirst, hothers⟩ := hes'.exists_operand rfl
    have hopen := Scan.derivesMark_of_readOperand (readOperand_moved (k := 0) htail hread)
    rw [Cursor.moved_nil_rest] at hopen
    -- blanks at the end of the inside stand before the parenthesis that closes
    have hgroup := DerivesOperand.group hopen (derivesLevel_joined hfirst hothers) (.mk hv')
    refine ⟨op, .joined op' (first :: others) :: es, v, hadmits, by simp [push, start], hv, ?_⟩
    exact .operand hexpecting hgroup (hes.derivesMore rfl)
  | case6 => cases h
  | case7 => cases h
  | case8 level c hend hexpecting op token next hread joined hjoin ih =>
    obtain ⟨op', es, v, hadmits, rfl, hv, hes⟩ := ih htail h
    obtain ⟨hoperands, hjoined, hlevel, hsame⟩ := join_eq_ok hjoin
    obtain rfl := hsame op' hadmits
    obtain ⟨first, others, a, rfl, hfirst, hothers⟩ := hes.exists_operand hjoined
    have hkeyword := Scan.derivesKeyword_of_readConnective
      (readConnective_moved (k := 0) htail hread)
    refine ⟨op', first :: others, v, hlevel, by rw [hoperands], hv, ?_⟩
    exact .more (Bool.eq_false_iff.2 hexpecting) (.cons hkeyword hfirst hothers)

theorem derivesLevel_of_parse {e : Expression} (h : start.parse c = .ok e) :
    ∃ v, AllBlank v ∧ DerivesLevel e c.rest v := by
  obtain ⟨op, es, v, -, rfl, hv, hes⟩ := completes_of_parse closesGroup_nil h
  obtain ⟨first, others, a, rfl, hfirst, hothers⟩ := hes.exists_operand rfl
  have hlevel := derivesLevel_joined hfirst hothers
  rw [List.append_nil, List.append_nil] at hlevel
  exact ⟨v, hv, hlevel⟩

end Level

/-- The spellings of an expression are among the texts that it is derived from. -/
theorem Spells.derives {e : Expression} {text : String} (h : Spells e text.toList) :
    Derives e text := by
  obtain ⟨v, hv, hlevel⟩ := Level.derivesLevel_of_parse (Level.parse_of_spells h 0)
  exact .mk hlevel hv

/-- Every text that is read has a derivation of what is read from it. -/
theorem Expression.derives_of_parse {text : String} {e : Expression} (h : parse text = .ok e) :
    Derives e text := by
  obtain ⟨v, hv, hlevel⟩ := Level.derivesLevel_of_parse h
  exact .mk hlevel hv

/-- Keywords in any case, quoted strings without blanks around them, a list whose last element is
empty, and a group with blanks inside. -/
theorem Expression.derives_of_parse_unusual :
    Derives
      (.logical .and [
        .comparison ⟨.oneOf, ⟨.identity, "it's"⟩, .list ["a b", "O'Brien", ""]⟩,
        .comparison ⟨.equal, ⟨.account "identity", "x"⟩, .single "and"⟩])
      " Identity . 'it''s'IN( a b ,O'Brien,)and( 'identity'.ATTRIBUTE.x eq and )\t" := by
  have hparse :
      parse " Identity . 'it''s'IN( a b ,O'Brien,)and( 'identity'.ATTRIBUTE.x eq and )\t" =
        .ok (.logical .and [
          .comparison ⟨.oneOf, ⟨.identity, "it's"⟩, .list ["a b", "O'Brien", ""]⟩,
          .comparison ⟨.equal, ⟨.account "identity", "x"⟩, .single "and"⟩]) := by decide +kernel
  exact derives_of_parse hparse

end Eligibility
