import Eligibility.Json.Printer
import Eligibility.Proofs.Escaping

/-!
# Reading written JSON

A value that is made of texts alone is read back from both of its layouts (`Json.parse_compact`,
`Json.parse_pretty`). What the two have in common is the tokens: a layout is cut into the tokens of
the value, with blanks between them that do not count, and the tokens are put together to the value
again. The second step works for every value.
-/

namespace Eligibility.Json

/-! ## Tokens of a value -/

mutual

/-- The tokens that denote a value. -/
def toTokens : Json → List Token
  | .string text => [.string text]
  | .array items => .openArray :: tokensOfItems items ++ [.closeArray]
  | .object members => .openObject :: tokensOfMembers members ++ [.closeObject]
  | value => [.scalar value]

/-- The tokens of items, with commas between them. -/
def tokensOfItems : List Json → List Token
  | [] => []
  | [item] => toTokens item
  | item :: items => toTokens item ++ .comma :: tokensOfItems items

/-- The tokens of members, with commas between them. -/
def tokensOfMembers : List (Option String × Json) → List Token
  | [] => []
  | [(name, value)] => .string name :: .colon :: toTokens value
  | (name, value) :: members =>
    .string name :: .colon :: (toTokens value ++ .comma :: tokensOfMembers members)

end

/-! ## Putting tokens together -/

namespace Builder

/-- What becomes of a builder with more tokens. -/
abbrev run (b : Builder) (tokens : List Token) : Option Builder := tokens.foldlM step b

/-- No value begins with a closing bracket, so the first item is read like any other value. -/
theorem run_expectFirstItem (stack : List Frame) (item : Json) (rest : List Token) :
    run (.expectFirstItem stack) (item.toTokens ++ rest) =
      run (.expectValue (.array [] :: stack)) (item.toTokens ++ rest) := by
  cases item <;> rfl

theorem tokensOfItems_eq_append (item : Json) (items : List Json) :
    ∃ more, tokensOfItems (item :: items) = item.toTokens ++ more := by
  cases items with
  | nil => exact ⟨[], by simp [tokensOfItems]⟩
  | cons next items => exact ⟨.comma :: tokensOfItems (next :: items), by rw [tokensOfItems]; simp⟩

/-- Members begin with a name, and the first name is read like any other. -/
theorem run_expectFirstName (stack : List Frame) (member : Option String × Json)
    (members : List (Option String × Json)) (rest : List Token) :
    run (.expectFirstName stack) (tokensOfMembers (member :: members) ++ rest) =
      run (.expectName stack []) (tokensOfMembers (member :: members) ++ rest) := by
  cases members <;> rfl

mutual

/-- The tokens of a value complete it, in whatever arrays and objects it stands. -/
theorem run_toTokens : ∀ (value : Json) (stack : List Frame) (rest : List Token),
    run (.expectValue stack) (value.toTokens ++ rest) = run (.complete stack value) rest
  | .null, _, _ => rfl
  | .bool _, _, _ => rfl
  | .number _, _, _ => rfl
  | .string _, _, _ => rfl
  | .array [], _, _ => rfl
  | .array (item :: items), stack, rest => by
    obtain ⟨more, hmore⟩ := tokensOfItems_eq_append item items
    have hitems := run_tokensOfItems (item :: items) [] stack rest (by simp)
    rw [hmore, List.append_assoc] at hitems
    have htokens : toTokens (.array (item :: items)) ++ rest =
        .openArray :: (item.toTokens ++ (more ++ .closeArray :: rest)) := by
      simp [toTokens, hmore]
    rw [htokens]
    exact (run_expectFirstItem stack item _).trans hitems
  | .object [], _, _ => rfl
  | .object (member :: members), stack, rest => by
    have hmembers := run_tokensOfMembers (member :: members) [] stack rest (by simp)
    have htokens : toTokens (.object (member :: members)) ++ rest =
        .openObject :: (tokensOfMembers (member :: members) ++ .closeObject :: rest) := by
      simp [toTokens]
    rw [htokens]
    exact (run_expectFirstName stack member members _).trans hmembers

/-- The tokens of items and a closing bracket complete an array that has some items. -/
theorem run_tokensOfItems : ∀ (items done : List Json) (stack : List Frame) (rest : List Token),
    items ≠ [] →
    run (.expectValue (.array done :: stack)) (tokensOfItems items ++ .closeArray :: rest) =
      run (.complete stack (.array (done ++ items))) rest
  | [item], done, stack, rest, _ => by
    rw [tokensOfItems, run_toTokens]
    rfl
  | item :: next :: items, done, stack, rest, _ => by
    have hitems := run_tokensOfItems (next :: items) (done ++ [item]) stack rest (by simp)
    rw [List.append_assoc] at hitems
    simp only [tokensOfItems, List.append_assoc, run_toTokens]
    exact hitems

/-- The tokens of members and a closing brace complete an object that has some members. -/
theorem run_tokensOfMembers : ∀ (members done : List (Option String × Json)) (stack : List Frame)
    (rest : List Token), members ≠ [] →
    run (.expectName stack done) (tokensOfMembers members ++ .closeObject :: rest) =
      run (.complete stack (.object (done ++ members))) rest
  | [(name, value)], done, stack, rest, _ => by
    have hvalue := run_toTokens value (.object done name :: stack) (.closeObject :: rest)
    rw [tokensOfMembers]
    exact hvalue
  | (name, value) :: next :: members, done, stack, rest, _ => by
    have hmembers := run_tokensOfMembers (next :: members) (done ++ [(name, value)]) stack rest
      (by simp)
    have hvalue := run_toTokens value (.object done name :: stack)
      (.comma :: (tokensOfMembers (next :: members) ++ .closeObject :: rest))
    rw [List.append_assoc] at hmembers
    have htokens : tokensOfMembers ((name, value) :: next :: members) ++ .closeObject :: rest =
        .string name :: .colon :: (value.toTokens ++
          .comma :: (tokensOfMembers (next :: members) ++ .closeObject :: rest)) := by
      simp [tokensOfMembers]
    rw [htokens]
    exact hvalue.trans hmembers

end

end Builder

/-- The tokens of a value denote it. -/
theorem ofTokens_toTokens (value : Json) : ofTokens value.toTokens = some value := by
  have hrun : value.toTokens.foldlM Builder.step (.expectValue []) =
      some (.complete [] value) := by
    simpa using Builder.run_toTokens value [] []
  simp [ofTokens, hrun, Builder.result?]

/-! ## Cutting texts into tokens -/

/-- Blanks between tokens. -/
def Spacing (text : List Char) : Prop := ∀ c ∈ text, isBlank c = true

theorem spacing_nil : Spacing [] := by simp [Spacing]

theorem spacing_blank : Spacing [' '] := by simp [Spacing, isBlank]

theorem spacing_newline (depth : Nat) : Spacing (newline depth) := by
  intro c hc
  rcases List.mem_cons.1 hc with rfl | hc
  · rfl
  · rw [List.eq_of_mem_replicate hc]
    rfl

/-- What the tokens of a text are, by its first character that is no blank. -/
theorem tokens_eq (text : List Char) :
    tokens text =
      match text.dropWhile isBlank with
      | [] => some []
      | c :: rest =>
        match readToken (c :: rest) with
        | none => none
        | some (token, after) => (tokens after).map (token :: ·) := by
  rw [tokens]
  split
  · simp [*]
  · simp only [*]
    split <;> simp [*]

/-- From wherever the text stands it is cut into the given tokens. -/
def Lexes (text : List Char) (found : List Token) : Prop :=
  ∀ rest, tokens (text ++ rest) = (tokens rest).map (found ++ ·)

namespace Lexes

theorem append {a b : List Char} {found more : List Token} (ha : Lexes a found)
    (hb : Lexes b more) : Lexes (a ++ b) (found ++ more) := by
  intro rest
  rw [List.append_assoc, ha, hb, Option.map_map]
  simp [Function.comp_def]

theorem spacing {u : List Char} (hu : Spacing u) : Lexes u [] := by
  intro rest
  rw [tokens_eq (u ++ rest), tokens_eq rest, List.dropWhile_append_of_pos hu]
  simp

theorem nil : Lexes [] [] := spacing spacing_nil

/-- A text that is read as one token, whatever follows it. -/
theorem token {c : Char} {text : List Char} {found : Token} (hc : isBlank c = false)
    (h : ∀ rest, readToken (c :: text ++ rest) = some (found, rest)) :
    Lexes (c :: text) [found] := by
  intro rest
  have hdrop : (c :: text ++ rest).dropWhile isBlank = c :: (text ++ rest) := by
    simp [hc]
  have hread : readToken (c :: (text ++ rest)) = some (found, rest) := h rest
  rw [tokens_eq, hdrop]
  simp only [hread]
  rfl

theorem mark {c : Char} {found : Token} (hc : isBlank c = false)
    (h : punctuation? c = some found) : Lexes [c] [found] :=
  token hc fun rest => by simp [readToken, h]

theorem string (text : String) : Lexes (stringText text) [.string (some text)] :=
  token rfl fun rest => readToken_stringText text rest

/-- A name before a value, with blanks after the colon. -/
theorem member {u text : List Char} {found : List Token} (name : String) (hu : Spacing u)
    (h : Lexes text found) :
    Lexes (stringText name ++ ':' :: (u ++ text)) (.string (some name) :: .colon :: found) :=
  (Lexes.string name).append ((mark rfl rfl).append ((spacing hu).append h))

/-- Parts with a comma between them. -/
theorem comma {a b : List Char} {found more : List Token} (ha : Lexes a found)
    (hb : Lexes b more) : Lexes (a ++ ',' :: b) (found ++ .comma :: more) :=
  ha.append ((mark rfl rfl).append hb)

/-- A text between an opening and a closing character. -/
theorem enclosed {c d : Char} {opening closing : Token} {text : List Char} {found : List Token}
    (hc : Lexes [c] [opening]) (h : Lexes text found) (hd : Lexes [d] [closing]) :
    Lexes (c :: text ++ [d]) (opening :: found ++ [closing]) :=
  (hc.append h).append hd

end Lexes

/-! ## Layouts -/

mutual

/-- A value that is made of texts: all its parts that are not composed are strings, and they and
the names of members stand for texts. -/
def IsTextual : Json → Prop
  | .string text => text ≠ none
  | .array items => AllTextual items
  | .object members => MembersTextual members
  | _ => False

/-- All items are made of texts. -/
def AllTextual : List Json → Prop
  | [] => True
  | item :: items => item.IsTextual ∧ AllTextual items

/-- All members are made of texts. -/
def MembersTextual : List (Option String × Json) → Prop
  | [] => True
  | (name, value) :: members => name ≠ none ∧ value.IsTextual ∧ MembersTextual members

end

theorem exists_text {text : Option String} (h : text ≠ none) : ∃ x, text = some x :=
  Option.ne_none_iff_exists'.1 h

mutual

/-- The compact layout of a value is cut into its tokens. -/
theorem lexes_compactText : ∀ {value : Json}, value.IsTextual →
    Lexes (compactText value) value.toTokens
  | .string text, h => by
    obtain ⟨x, rfl⟩ := exists_text (by simpa [IsTextual] using h)
    simpa [compactText, toTokens] using Lexes.string x
  | .array items, h => by
    have hall : AllTextual items := by simpa [IsTextual] using h
    have hitems := lexes_compactItems hall
    simpa [compactText, toTokens] using Lexes.enclosed (.mark rfl rfl) hitems (.mark rfl rfl)
  | .object members, h => by
    have hall : MembersTextual members := by simpa [IsTextual] using h
    have hmembers := lexes_compactMembers hall
    simpa [compactText, toTokens] using Lexes.enclosed (.mark rfl rfl) hmembers (.mark rfl rfl)

theorem lexes_compactItems : ∀ {items : List Json}, AllTextual items →
    Lexes (compactItems items) (tokensOfItems items)
  | [], _ => by simpa [compactItems, tokensOfItems] using Lexes.nil
  | [item], h => by simpa [compactItems, tokensOfItems] using lexes_compactText h.1
  | item :: next :: items, h => by
    simpa [compactItems, tokensOfItems] using (lexes_compactText h.1).comma (lexes_compactItems h.2)

theorem lexes_compactMembers : ∀ {members : List (Option String × Json)}, MembersTextual members →
    Lexes (compactMembers members) (tokensOfMembers members)
  | [], _ => by simpa [compactMembers, tokensOfMembers] using Lexes.nil
  | [(name, value)], h => by
    obtain ⟨x, rfl⟩ := exists_text h.1
    have hvalue := lexes_compactText h.2.1
    simpa [compactMembers, tokensOfMembers] using hvalue.member x spacing_nil
  | (name, value) :: next :: members, h => by
    obtain ⟨x, rfl⟩ := exists_text h.1
    have hvalue := lexes_compactText h.2.1
    simpa [compactMembers, tokensOfMembers] using
      (hvalue.member x spacing_nil).comma (lexes_compactMembers h.2.2)

end

mutual

/-- The indented layout of a value is cut into its tokens, however deep it stands. -/
theorem lexes_prettyText : ∀ {value : Json} (depth : Nat), value.IsTextual →
    Lexes (prettyText depth value) value.toTokens
  | .string text, _, h => by
    obtain ⟨x, rfl⟩ := exists_text (by simpa [IsTextual] using h)
    simpa [prettyText, toTokens] using Lexes.string x
  | .array [], _, _ => by
    simpa [prettyText, toTokens, tokensOfItems] using
      Lexes.enclosed (.mark rfl rfl) Lexes.nil (.mark rfl rfl)
  | .array (item :: items), depth, h => by
    have hall : AllTextual (item :: items) := by simpa [IsTextual] using h
    have hitems := lexes_prettyItems (depth + 1) hall
    simpa [prettyText, toTokens] using
      Lexes.enclosed (.mark rfl rfl) (hitems.append (.spacing (spacing_newline depth)))
        (.mark rfl rfl)
  | .object [], _, _ => by
    simpa [prettyText, toTokens, tokensOfMembers] using
      Lexes.enclosed (.mark rfl rfl) Lexes.nil (.mark rfl rfl)
  | .object (member :: members), depth, h => by
    have hall : MembersTextual (member :: members) := by simpa [IsTextual] using h
    have hmembers := lexes_prettyMembers (depth + 1) hall
    simpa [prettyText, toTokens] using
      Lexes.enclosed (.mark rfl rfl) (hmembers.append (.spacing (spacing_newline depth)))
        (.mark rfl rfl)

theorem lexes_prettyItems : ∀ {items : List Json} (depth : Nat), AllTextual items →
    Lexes (prettyItems depth items) (tokensOfItems items)
  | [], _, _ => by simpa [prettyItems, tokensOfItems] using Lexes.nil
  | [item], depth, h => by
    have hitem := (Lexes.spacing (spacing_newline depth)).append (lexes_prettyText depth h.1)
    simpa [prettyItems, tokensOfItems] using hitem
  | item :: next :: items, depth, h => by
    have hitem := (Lexes.spacing (spacing_newline depth)).append (lexes_prettyText depth h.1)
    simpa [prettyItems, tokensOfItems] using hitem.comma (lexes_prettyItems depth h.2)

theorem lexes_prettyMembers : ∀ {members : List (Option String × Json)} (depth : Nat),
    MembersTextual members → Lexes (prettyMembers depth members) (tokensOfMembers members)
  | [], _, _ => by simpa [prettyMembers, tokensOfMembers] using Lexes.nil
  | [(name, value)], depth, h => by
    obtain ⟨x, rfl⟩ := exists_text h.1
    have hvalue := (lexes_prettyText depth h.2.1).member x spacing_blank
    have hmember := (Lexes.spacing (spacing_newline depth)).append hvalue
    simpa [prettyMembers, tokensOfMembers] using hmember
  | (name, value) :: next :: members, depth, h => by
    obtain ⟨x, rfl⟩ := exists_text h.1
    have hvalue := (lexes_prettyText depth h.2.1).member x spacing_blank
    have hmember := (Lexes.spacing (spacing_newline depth)).append hvalue
    simpa [prettyMembers, tokensOfMembers] using hmember.comma (lexes_prettyMembers depth h.2.2)

end

/-! ## Reading back -/

/-- A text that is cut into the tokens of a value denotes the value. -/
theorem parse_of_lexes {value : Json} {text : List Char} (h : Lexes text value.toTokens) :
    parse (String.ofList text) = some value := by
  have htokens : tokens text = some value.toTokens := by
    simpa [tokens_eq []] using h []
  simp [parse, htokens, ofTokens_toTokens]

theorem parse_compact {value : Json} (h : value.IsTextual) : parse value.compact = some value :=
  parse_of_lexes (lexes_compactText h)

theorem parse_pretty {value : Json} (h : value.IsTextual) : parse value.pretty = some value :=
  parse_of_lexes (lexes_prettyText 0 h)

end Eligibility.Json
