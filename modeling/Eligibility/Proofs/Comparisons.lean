import Eligibility.Proofs.ValueLists

/-!
# Reading spelled comparisons

Every spelling of a comparison is read as that comparison, whatever follows it, as long as that does
not go on the last token. The proofs follow the symbols from left to right; each lemma says what one
scan makes of one symbol together with the blanks before it.
-/

namespace Eligibility.Scan

/-! ## Attributes -/

theorem reads_expectDot {u : List Char} (hu : AllBlank u) (rest : List Char) (after : String) :
    Reads (expectDot after) (u ++ ['.']) rest fun _ => True := by
  intro offset
  have hskip := Cursor.skipBlanks_append hu ('.' :: rest) (by simp; rfl) offset
  refine ⟨(), trivial, ?_⟩
  unfold expectDot
  rw [List.append_assoc, List.singleton_append, hskip]
  simp [Nat.add_assoc]

theorem endsToken_dot {d : List Char} (h : SpellsDot d) (rest : List Char) :
    EndsToken (d ++ rest) := by
  obtain ⟨hu, hv⟩ := h
  rw [List.append_assoc]
  exact EndsToken.blanks hu (.inr (endsToken_cons.2 rfl))

/-- A dot and what is read after it, the blanks after the dot included. -/
theorem reads_dot {α : Type} {x : Scan α} {d w rest : List Char} {P : α → Prop} (hd : SpellsDot d)
    (after : String) (hx : ∀ v, AllBlank v → Reads x (v ++ w) rest P) :
    Reads (do expectDot after; x) (d ++ w) rest P := by
  obtain ⟨hu, hv⟩ := hd
  rename_i u v
  have hread := (reads_expectDot hu (v ++ w ++ rest) after).bind fun _ _ => hx v hv
  simpa using hread

theorem reads_property {d w rest : List Char} {property : String} (hd : SpellsDot d)
    (hw : SpellsWord property w) (hrest : EndsToken rest) (after : String) (scope : Scope) :
    Reads (do expectDot after; let p ← readWord; return (⟨scope, p.text⟩ : Attribute)) (d ++ w)
      rest (· = ⟨scope, property⟩) := by
  refine reads_dot hd after fun v hv => ?_
  refine (reads_word (reads_token hw hv hrest) fun t ht => ht.2).bind_still fun t ht => ?_
  exact Reads.pure (by rw [ht.1])

theorem reads_readAttribute_identity {first : Token} {d w rest : List Char} {property : String}
    (hfirst : first.isKeyword "identity" = true) (hd : SpellsDot d) (hw : SpellsWord property w)
    (hrest : EndsToken rest) :
    Reads (readAttribute first) (d ++ w) rest (· = ⟨.identity, property⟩) := by
  have hread := reads_property hd hw hrest first.text .identity
  unfold readAttribute
  simpa only [hfirst, if_true] using hread

theorem scopeOfKind_attribute {source : String} {k : List Char} {kind : Token}
    (hk : SpellsKeyword "attribute" k) (hquoted : kind.quoted = false)
    (htext : kind.text = String.ofList k) : scopeOfKind source kind = .ok (.account source) := by
  have hsame : sameWord "attribute" "attribute" = true := by decide
  simp [scopeOfKind, Token.isKeyword, hquoted, htext, hk.sameWord_eq isPlain_attribute, hsame]

theorem scopeOfKind_entitlement {source : String} {k : List Char} {kind : Token}
    (hk : SpellsKeyword "entitlement" k) (hquoted : kind.quoted = false)
    (htext : kind.text = String.ofList k) :
    scopeOfKind source kind = .ok (.entitlement source) := by
  have hsame : sameWord "entitlement" "entitlement" = true := by decide
  have hother : sameWord "entitlement" "attribute" = false := by decide
  simp [scopeOfKind, Token.isKeyword, hquoted, htext, hk.sameWord_eq isPlain_entitlement, hsame,
    hother]

theorem reads_readAttribute_source {first : Token} {d k d' w rest : List Char}
    {source keyword property : String} {scope : Scope} (hfirst : first.Denotes source)
    (hkeyword : first.isKeyword "identity" = false) (hd : SpellsDot d)
    (hk : SpellsKeyword keyword k) (hplain : IsPlain keyword)
    (hscope : ∀ kind : Token, kind.quoted = false → kind.text = String.ofList k →
      scopeOfKind source kind = .ok scope)
    (hd' : SpellsDot d') (hw : SpellsWord property w) (hrest : EndsToken rest) :
    Reads (readAttribute first) (d ++ (k ++ (d' ++ w))) rest (· = ⟨scope, property⟩) := by
  have hends : EndsToken (d' ++ w ++ rest) := by
    rw [List.append_assoc]
    exact endsToken_dot hd' _
  unfold readAttribute
  simp only [hkeyword, Bool.false_eq_true, if_false]
  refine reads_dot hd first.text fun v hv => ?_
  rw [← List.append_assoc]
  have hword := reads_word (reads_keyword hk hplain hv hends) fun t ht => ht.2.2
  refine hword.bind fun kind hkind => ?_
  have hkindScope := hscope kind hkind.1 hkind.2.1
  rw [← hfirst.1] at hkindScope
  simp only [hkindScope]
  exact reads_property hd' hw hrest kind.text scope

/-! ## Operators and literals -/

theorem reads_readOperator {op : Operator} {u k rest : List Char}
    (hk : SpellsKeyword op.keyword k) (hu : AllBlank u) (hrest : EndsToken rest) :
    Reads readOperator (u ++ k) rest (· = op) := by
  unfold readOperator
  refine (reads_word (reads_keyword hk op.isPlain_keyword hu hrest) fun t ht => ht.2.2).bind_still
    fun t ht => ?_
  simp only [ht.1, ht.2.1, Bool.false_eq_true, if_false, Operator.ofKeyword?_of_spells hk]
  exact Reads.pure rfl

theorem reads_readLiteral_single {x : String} {v w rest : List Char} (hw : SpellsWord x w)
    (hv : AllBlank v) (hrest : EndsToken rest) :
    Reads readLiteral (v ++ w) rest (· = .single x) := by
  unfold readLiteral
  refine (reads_token hw hv hrest).bind_still fun t ht => ?_
  simp only [ht.2, Bool.false_eq_true, if_false]
  exact Reads.pure (by rw [ht.1])

theorem reads_readLiteral_list {xs : List String} {v t rest : List Char} (ht : SpellsValues xs t)
    (hv : AllBlank v) : Reads readLiteral (v ++ ('(' :: t ++ [')'])) rest (· = .list xs) := by
  intro offset
  have htoken := readToken_none hv (c := '(') (t ++ [')'] ++ rest) rfl rfl rfl offset
  obtain ⟨all, hall, hread⟩ := reads_readElements ht (offset + byteLength v) rest []
    (offset + byteLength v + '('.utf8Size)
  have hlist : readValueList ⟨'(' :: t ++ [')'] ++ rest, offset + byteLength v⟩ =
      .ok xs ⟨rest, offset + byteLength (v ++ ('(' :: t ++ [')']))⟩ := by
    unfold readValueList
    refine hread.trans ?_
    rw [hall]
    simp [Nat.add_assoc]
  refine ⟨_, rfl, ?_⟩
  unfold readLiteral
  have hwhole : v ++ ('(' :: t ++ [')']) ++ rest = v ++ '(' :: (t ++ [')'] ++ rest) := by simp
  rw [hwhole, bind_ok htoken]
  show (get >>= fun c =>
      if c.current? = some '(' then Literal.list <$> readValueList else unexpected)
    (⟨'(' :: t ++ [')'] ++ rest, offset + byteLength v⟩ : Cursor) = _
  have hcurrent : (⟨'(' :: t ++ [')'] ++ rest, offset + byteLength v⟩ : Cursor).current? =
      some '(' := rfl
  rw [bind_get, if_pos hcurrent]
  exact map_ok hlist

/-! ## Comparisons -/

theorem endsToken_literal {l : Literal} {v t rest : List Char} (hv : AllBlank v)
    (h : v ≠ [] ∨ l.isList = true) (hl : SpellsLiteral l t) : EndsToken (v ++ t ++ rest) := by
  rw [List.append_assoc]
  refine EndsToken.blanks hv (h.imp_right fun hlist => ?_)
  cases hl with
  | single => cases hlist
  | list => exact endsToken_cons.2 rfl

theorem reads_readLiteral {l : Literal} {v t rest : List Char} (hl : SpellsLiteral l t)
    (hv : AllBlank v) (hrest : l.isList = true ∨ EndsToken rest) :
    Reads readLiteral (v ++ t) rest (· = l) := by
  cases hl with
  | single hw =>
    exact reads_readLiteral_single hw hv (hrest.resolve_left (by simp [Literal.isList]))
  | list ht => exact reads_readLiteral_list ht hv

/-- Reads the rest of a comparison, if the first token leads to its attribute. -/
theorem reads_readComparison {c : Comparison} {first : Token} {a u k v l rest : List Char}
    (ha : Reads (readAttribute first) a (u ++ k ++ (v ++ l) ++ rest) (· = c.subject))
    (hu : AllBlank u) (hk : SpellsKeyword c.operator.keyword k) (hv : AllBlank v)
    (hv' : v ≠ [] ∨ c.value.isList = true) (hl : SpellsLiteral c.value l)
    (hrest : c.value.isList = true ∨ EndsToken rest) :
    Reads (readComparison first) (a ++ (u ++ k ++ (v ++ l))) rest (· = c) := by
  unfold readComparison
  refine ha.bind fun subject hsubject => ?_
  refine (reads_readOperator hk hu (endsToken_literal hv hv' hl)).bind fun operator hop => ?_
  refine (reads_readLiteral hl hv hrest).bind_still fun value hvalue => ?_
  exact Reads.pure (by rw [hsubject, hop, hvalue])

theorem reads_readComparisonOperand {c : Comparison} {w more rest : List Char}
    {P : Token → Prop} (hw : Reads readToken w (more ++ rest) P)
    (hP : ∀ t, P t → t.isEmpty = false)
    (hmore : ∀ t, P t → Reads (readComparison t) more rest (· = c)) :
    Reads readComparisonOperand (w ++ more) rest fun o => o = .comparison c := by
  unfold readComparisonOperand
  refine hw.bind fun t ht => ?_
  simp only [hP t ht, Bool.false_eq_true, if_false]
  exact (hmore t ht).map fun x hx => by rw [hx]

/-- Reads a comparison whose attribute names a source. The keyword between the two dots is given
with the scope it stands for. -/
theorem reads_sourceComparison {c : Comparison} {source property keyword : String} {scope : Scope}
    {s d i d' p more rest : List Char} (hsubject : c.subject = ⟨scope, property⟩)
    (hs : SpellsSource source s) (hd : SpellsDot d) (hi : SpellsKeyword keyword i)
    (hplain : IsPlain keyword)
    (hscope : ∀ kind : Token, kind.quoted = false → kind.text = String.ofList i →
      scopeOfKind source kind = .ok scope)
    (hd' : SpellsDot d') (hp : SpellsWord property p) (hends : EndsToken (more ++ rest))
    (hmore : ∀ first, Reads (readAttribute first) (d ++ (i ++ (d' ++ p))) (more ++ rest)
        (· = c.subject) →
      Reads (readComparison first) (d ++ (i ++ (d' ++ p)) ++ more) rest (· = c)) :
    Reads readComparisonOperand (s ++ d ++ i ++ d' ++ p ++ more) rest
      fun o => o = .comparison c := by
  have hdot : EndsToken (d ++ (i ++ (d' ++ p)) ++ more ++ rest) := by
    simpa using endsToken_dot hd _
  have hread := reads_readComparisonOperand (reads_source hs allBlank_nil hdot)
    (fun t ht => ht.1.2) fun t ht => hmore t (by
      rw [hsubject]
      exact reads_readAttribute_source ht.1 ht.2 hd hi hplain hscope hd' hp hends)
  simpa using hread

/-- Every spelling of a comparison is read as an operand. -/
theorem reads_comparison {c : Comparison} {w rest : List Char} (h : SpellsComparison c w)
    (hrest : c.value.isList = true ∨ EndsToken rest) :
    Reads readComparisonOperand w rest fun o => o = .comparison c := by
  obtain ⟨ha, hu, hu', hk, hv, hv', hl⟩ := h
  rename_i a u k v l
  have hends : EndsToken (u ++ k ++ (v ++ l) ++ rest) := by
    rw [List.append_assoc u, List.append_assoc u]
    exact EndsToken.blanks hu (.inl hu')
  have hmore : ∀ (first : Token) {a : List Char},
      Reads (readAttribute first) a (u ++ k ++ (v ++ l) ++ rest) (· = c.subject) →
      Reads (readComparison first) (a ++ (u ++ k ++ (v ++ l))) rest (· = c) :=
    fun _ _ ha => reads_readComparison ha hu hk hv hv' hl hrest
  have htext : a ++ u ++ k ++ v ++ l = a ++ (u ++ k ++ (v ++ l)) := by simp
  rw [htext]
  generalize hsubject : c.subject = subject at ha
  cases ha with
  | @identity property i d p hi hd hp =>
    have hdot : EndsToken (d ++ p ++ (u ++ k ++ (v ++ l)) ++ rest) := by
      simpa using endsToken_dot hd _
    have hread := reads_readComparisonOperand (reads_keyword hi isPlain_identity allBlank_nil hdot)
      (fun t ht => ht.2.2) fun t ht => hmore t (by
        rw [hsubject]
        exact reads_readAttribute_identity (hi.isKeyword isPlain_identity ht.1 ht.2.1) hd hp hends)
    simpa using hread
  | account hs hd hi hd' hp =>
    exact reads_sourceComparison hsubject hs hd hi isPlain_attribute
      (fun _ hquoted htext => scopeOfKind_attribute hi hquoted htext) hd' hp hends
      fun first ha => hmore first ha
  | entitlement hs hd hi hd' hp =>
    exact reads_sourceComparison hsubject hs hd hi isPlain_entitlement
      (fun _ hquoted htext => scopeOfKind_entitlement hi hquoted htext) hd' hp hends
      fun first ha => hmore first ha

end Eligibility.Scan
