import Mathlib.Data.List.Chain
import Eligibility.Proofs.JsonSpellings
import Eligibility.Proofs.JsonTexts

/-!
# The texts that denote a JSON value

A text denotes a JSON value if and only if it consists of the tokens of the value, each in any of
its spellings, with blanks anywhere around them (`parse_eq_some_iff`). In one direction the tokens are
found again in the text, which needs that no two numbers stand side by side; in the other, what a
builder has put together has exactly the tokens that the builder has taken.
-/

namespace Eligibility.Json

/-- A text with the given tokens and blanks around them. -/
inductive Spaced : List Token → List Char → Prop where
  /-- Blanks alone. -/
  | nil {u : List Char} (hu : Spacing u) : Spaced [] u
  /-- A token after blanks. -/
  | cons {u spelling text : List Char} {token : Token} {tokens : List Token} (hu : Spacing u)
      (htoken : SpellsToken token spelling) (h : Spaced tokens text) :
      Spaced (token :: tokens) (u ++ (spelling ++ text))

/-- A text of a value: its tokens, with blanks around them. -/
def Layout (value : Json) (text : List Char) : Prop := Spaced value.toTokens text

/-! ## Scalars stand apart -/

/-- Tokens of which no two scalars stand side by side. -/
abbrev Apart (tokens : List Token) : Prop :=
  tokens.IsChain fun a b => a.isScalar = true → b.isScalar = false

namespace Builder

variable {b b' : Builder} {token : Token} {tokens : List Token}

theorem run_cons : run b (token :: tokens) = some b' ↔
    ∃ next, step b token = some next ∧ run next tokens = some b' := by
  rw [run, List.foldlM_cons]
  exact Option.bind_eq_some_iff

/-- A scalar completes a value. -/
theorem step_scalar {value : Json} (h : step b (.scalar value) = some b') :
    ∃ stack, b' = .complete stack value := by
  cases b with
  | expectValue stack =>
    cases h
    exact ⟨_, rfl⟩
  | expectFirstItem stack =>
    cases h
    exact ⟨_, rfl⟩
  | expectFirstName stack => cases h
  | expectName stack members => cases h
  | expectColon stack members name => cases h
  | complete stack done =>
    cases stack with
    | nil => cases h
    | cons frame stack => cases frame <;> cases h

theorem isScalar_of_step_complete {stack : List Frame} {value : Json}
    (h : step (.complete stack value) token = some b') : token.isScalar = false := by
  cases token with
  | scalar scalar =>
    obtain ⟨_, rfl⟩ := step_scalar h
    cases stack with
    | nil => cases h
    | cons frame stack => cases frame <;> cases h
  | _ => rfl

/-- What a builder takes has its scalars apart, since nothing but a mark follows a value. -/
theorem apart_of_run (h : run b tokens = some b') : Apart tokens := by
  induction tokens generalizing b with
  | nil => exact .nil
  | cons token tokens ih =>
    obtain ⟨next, hstep, hrun⟩ := run_cons.1 h
    refine List.isChain_cons.2 ⟨?_, ih hrun⟩
    intro other hother hscalar
    cases token with
    | scalar value =>
      obtain ⟨stack, rfl⟩ := step_scalar hstep
      cases tokens with
      | nil => cases hother
      | cons first tokens =>
        cases hother
        obtain ⟨_, hfirst, -⟩ := run_cons.1 hrun
        exact isScalar_of_step_complete hfirst
    | _ => cases hscalar

end Builder

theorem apart_toTokens (value : Json) : Apart value.toTokens := by
  obtain ⟨b, hrun, -⟩ := Option.bind_eq_some_iff.1 (ofTokens_toTokens value)
  exact Builder.apart_of_run hrun

/-! ## Tokens of a text -/

section Tokens

variable {text : List Char} {found : List Token}

/-- Unless it begins with a scalar, spaced text ends a number that stands before it. -/
theorem Spaced.endsNumber (h : Spaced found text)
    (hfirst : ∀ token ∈ found.head?, token.isScalar = false) : EndsNumber text := by
  have hblank {u : List Char} (hu : Spacing u) : EndsNumber u := by
    intro c hc
    have hcases : ((c = ' ' ∨ c = '\t') ∨ c = '\n') ∨ c = '\r' := by
      simpa [isBlank] using hu c (List.mem_of_mem_head? hc)
    rcases hcases with ((rfl | rfl) | rfl) | rfl <;> decide
  cases h with
  | nil hu => exact hblank hu
  | @cons u spelling text token tokens hu htoken _ =>
    cases u with
    | cons c u =>
      intro d hd
      exact hblank hu d hd
    | nil =>
      obtain ⟨c, more, rfl, -, hends⟩ := htoken.start
      intro d hd
      cases hd
      exact hends (hfirst token rfl)

/-- The tokens of a text are found, if its scalars stand apart. -/
theorem Spaced.tokens_eq_some (h : Spaced found text) (hapart : Apart found) :
    tokens text = some found := by
  induction h with
  | nil hu => simpa [tokens_eq []] using Lexes.spacing hu []
  | @cons u spelling text token found hu htoken h ih =>
    obtain ⟨hfirst, hapart⟩ := List.isChain_cons.1 hapart
    have hread : readToken (spelling ++ text) = some (token, text) :=
      readToken_append htoken fun hscalar => h.endsNumber fun other hother =>
        hfirst other hother hscalar
    obtain ⟨c, more, rfl, hc, -⟩ := htoken.start
    have hdrop : (c :: more ++ text).dropWhile isBlank = c :: (more ++ text) := by simp [hc]
    have hspacing : tokens (u ++ (c :: more ++ text)) = tokens (c :: more ++ text) := by
      simpa using Lexes.spacing hu (c :: more ++ text)
    rw [List.cons_append] at hread
    rw [hspacing, tokens_eq, hdrop]
    simp [hread, ih hapart]

/-- A text is made of the tokens that are found in it. -/
theorem spaced_of_tokens (h : tokens text = some found) : Spaced found text := by
  induction hlength : text.length using Nat.strongRecOn generalizing text found with
  | ind length ih =>
    have hsplit := List.takeWhile_append_dropWhile (p := isBlank) (l := text)
    have hu : Spacing (text.takeWhile isBlank) := (takeWhile_dropWhile isBlank text).1
    rw [tokens_eq] at h
    split at h
    · rename_i hdrop
      cases h
      rw [hdrop, List.append_nil] at hsplit
      exact .nil (hsplit ▸ hu)
    rename_i c rest hdrop
    split at h
    · cases h
    rename_i token after hread
    obtain ⟨found, hafter, rfl⟩ := Option.map_eq_some_iff.1 h
    have hlt := length_readToken_lt hread
    have hle := (List.dropWhile_sublist (l := text) isBlank).length_le
    rw [hdrop] at hle
    obtain ⟨spelling, hspelling, htoken⟩ := spells_of_readToken hread
    rw [← hsplit, hdrop, hspelling]
    exact .cons hu htoken (ih after.length (by omega) hafter rfl)

end Tokens

/-! ## What a builder has taken -/

/-- Items with a comma behind each. -/
def openItems (items : List Json) : List Token :=
  items.flatMap fun item => item.toTokens ++ [.comma]

/-- Members with a comma behind each. -/
def openMembers (members : List (Option String × Json)) : List Token :=
  members.flatMap fun m => .string m.1 :: .colon :: (m.2.toTokens ++ [.comma])

theorem tokensOfItems_append (items : List Json) (last : Json) :
    tokensOfItems (items ++ [last]) = openItems items ++ last.toTokens := by
  induction items with
  | nil => rfl
  | cons item items ih =>
    rw [List.cons_append, tokensOfItems, ih]
    · simp [openItems]
    · simp

theorem tokensOfMembers_append (members : List (Option String × Json)) (name : Option String)
    (last : Json) : tokensOfMembers (members ++ [(name, last)]) =
      openMembers members ++ .string name :: .colon :: last.toTokens := by
  induction members with
  | nil => rfl
  | cons member members ih =>
    rw [List.cons_append, tokensOfMembers, ih]
    · simp [openMembers]
    · simp

/-- The tokens of an open array or object, up to where its next value comes. -/
def Frame.taken : Frame → List Token
  | .array items => .openArray :: openItems items
  | .object members name => .openObject :: (openMembers members ++ [.string name, .colon])

/-- The tokens of open arrays and objects, innermost first. -/
def takenBy : List Frame → List Token
  | [] => []
  | frame :: stack => takenBy stack ++ frame.taken

/-- The tokens that a builder has taken. -/
def Builder.taken : Builder → List Token
  | .expectValue stack => takenBy stack
  | .expectFirstItem stack => takenBy stack ++ [.openArray]
  | .expectFirstName stack => takenBy stack ++ [.openObject]
  | .expectName stack members => takenBy stack ++ .openObject :: openMembers members
  | .expectColon stack members name =>
    takenBy stack ++ .openObject :: (openMembers members ++ [.string name])
  | .complete stack value => takenBy stack ++ value.toTokens

/-- A token that is the value it holds, if it is a scalar. -/
def Token.IsAtomic : Token → Prop
  | .scalar value => value.toTokens = [.scalar value]
  | _ => True

theorem SpellsToken.isAtomic {token : Token} {text : List Char} (h : SpellsToken token text) :
    token.IsAtomic := by
  cases h with
  | mark h =>
    cases token with
    | scalar value => grind [punctuation?]
    | _ => trivial
  | string _ => trivial
  | literalNull => rfl
  | literalTrue => rfl
  | literalFalse => rfl
  | number _ => rfl

namespace Builder

variable {b b' : Builder} {token : Token}

theorem taken_startValue {stack : List Frame} (h : startValue stack token = some b')
    (hatomic : token.IsAtomic) : b'.taken = takenBy stack ++ [token] := by
  cases token with
  | openObject =>
    cases h
    rfl
  | openArray =>
    cases h
    rfl
  | string text =>
    cases h
    simp [taken, toTokens]
  | scalar value =>
    cases h
    have hvalue : value.toTokens = [.scalar value] := hatomic
    simp [taken, hvalue]
  | _ => cases h

theorem taken_continueAfter {stack : List Frame} {value : Json}
    (h : continueAfter stack value token = some b') :
    b'.taken = takenBy stack ++ value.toTokens ++ [token] := by
  unfold continueAfter at h
  split at h
  · cases h
    simp [taken, takenBy, Frame.taken, openItems]
  · cases h
    simp [taken, takenBy, Frame.taken, toTokens, tokensOfItems_append]
  · cases h
    simp [taken, takenBy, Frame.taken, openMembers]
  · cases h
    simp [taken, takenBy, Frame.taken, toTokens, tokensOfMembers_append]
  · cases h

theorem taken_step (h : step b token = some b') (hatomic : token.IsAtomic) :
    b'.taken = b.taken ++ [token] := by
  cases b with
  | expectValue stack => exact taken_startValue h hatomic
  | expectFirstItem stack =>
    by_cases hclose : token = .closeArray
    · subst hclose
      cases h
      simp [taken, toTokens, tokensOfItems]
    · have hstart : startValue (.array [] :: stack) token = some b' := by
        cases token <;> first | exact h | exact absurd rfl hclose
      simpa [taken, takenBy, Frame.taken, openItems] using taken_startValue hstart hatomic
  | expectFirstName stack =>
    cases token with
    | closeObject =>
      cases h
      simp [taken, toTokens, tokensOfMembers]
    | string text =>
      cases h
      simp [taken, openMembers]
    | _ => cases h
  | expectName stack members =>
    cases token with
    | string text =>
      cases h
      simp [taken]
    | _ => cases h
  | expectColon stack members name =>
    cases token with
    | colon =>
      cases h
      simp [taken, takenBy, Frame.taken]
    | _ => cases h
  | complete stack value => exact taken_continueAfter h

theorem taken_run {tokens : List Token} (h : run b tokens = some b')
    (hatomic : ∀ token ∈ tokens, token.IsAtomic) : b'.taken = b.taken ++ tokens := by
  induction tokens generalizing b with
  | nil =>
    cases h
    simp
  | cons token tokens ih =>
    obtain ⟨next, hstep, hrun⟩ := run_cons.1 h
    rw [ih hrun fun t ht => hatomic t (List.mem_cons_of_mem token ht),
      taken_step hstep (hatomic token List.mem_cons_self), List.append_assoc,
      List.singleton_append]

end Builder

/-- A value has exactly the tokens that denote it. -/
theorem toTokens_of_ofTokens {tokens : List Token} {value : Json}
    (h : ofTokens tokens = some value) (hatomic : ∀ token ∈ tokens, token.IsAtomic) :
    value.toTokens = tokens := by
  obtain ⟨b, hrun, hresult⟩ := Option.bind_eq_some_iff.1 h
  have htaken := Builder.taken_run hrun hatomic
  cases b with
  | complete stack done =>
    cases stack with
    | nil =>
      cases hresult
      simpa [Builder.taken, takenBy] using htaken
    | cons frame stack => cases hresult
  | _ => cases hresult

/-! ## Texts of a value -/

theorem Spaced.isAtomic {tokens : List Token} {text : List Char} (h : Spaced tokens text) :
    ∀ token ∈ tokens, token.IsAtomic := by
  induction h with
  | nil _ => simp
  | cons _ htoken _ ih =>
    intro other hother
    rcases List.mem_cons.1 hother with rfl | hother
    · exact htoken.isAtomic
    · exact ih other hother

/-- A text denotes a value if and only if it is made of the tokens of the value, in any of their
spellings and with any blanks around them. -/
theorem parse_eq_some_iff {text : String} {value : Json} :
    parse text = some value ↔ Layout value text.toList := by
  constructor
  · intro h
    obtain ⟨found, hfound, hvalue⟩ := Option.bind_eq_some_iff.1 h
    have hspaced := spaced_of_tokens hfound
    rw [Layout, toTokens_of_ofTokens hvalue hspaced.isAtomic]
    exact hspaced
  · intro h
    have hfound := Spaced.tokens_eq_some h (apart_toTokens value)
    simp [parse, hfound, ofTokens_toTokens]

end Eligibility.Json
