import Eligibility.Proofs.Reading

/-!
# What reading yields

Every expression that is read is regular: a level with one operand is that operand, so a connective
joins at least two, and a list of values is read with at least one.
-/

namespace Eligibility

namespace Expression

theorem allRegular_iff {es : List Expression} : AllRegular es ↔ ∀ e ∈ es, e.IsRegular := by
  induction es with
  | nil => simp [AllRegular]
  | cons e es ih => simp [AllRegular, ih]

theorem isRegular_logical {op : Connective} {children : List Expression} :
    (logical op children).IsRegular ↔ 2 ≤ children.length ∧ ∀ e ∈ children, e.IsRegular := by
  rw [IsRegular, allRegular_iff]

mutual

/-- No comparison of a regular expression has an empty list of values. -/
theorem value_ne_of_isRegular : ∀ {e : Expression}, e.IsRegular →
    ∀ c ∈ e.comparisons, c.value ≠ .list []
  | .comparison c, h, x, hx => by
    rw [IsRegular] at h
    obtain rfl : x = c := by simpa [comparisons] using hx
    exact h
  | .logical _ children, h, x, hx => by
    rw [IsRegular] at h
    rw [comparisons] at hx
    exact value_ne_of_allRegular h.2 x hx

theorem value_ne_of_allRegular : ∀ {es : List Expression}, AllRegular es →
    ∀ c ∈ comparisonsAll es, c.value ≠ .list []
  | e :: es, h, x, hx => by
    rw [AllRegular] at h
    rw [comparisonsAll] at hx
    rcases List.mem_append.1 hx with hx | hx
    · exact value_ne_of_isRegular h.1 x hx
    · exact value_ne_of_allRegular h.2 x hx

end

end Expression

namespace Scan

variable {α β : Type}

/-- Every result of the scan is as described. -/
def Yields (x : Scan α) (P : α → Prop) : Prop := ∀ c a next, x c = .ok a next → P a

namespace Yields

variable {x : Scan α} {f : α → Scan β} {P : α → Prop} {Q : β → Prop}

theorem pure {a : α} (h : P a) : Yields (pure a) P := by
  intro c b next hb
  cases hb
  exact h

theorem bind (hf : ∀ a, Yields (f a) Q) : Yields (x >>= f) Q := by
  intro c b next h
  cases hx : x c with
  | ok a mid =>
    rw [bind_ok hx] at h
    exact hf a mid b next h
  | error e mid =>
    rw [bind_error hx] at h
    cases h

theorem bind_of (hx : Yields x P) (hf : ∀ a, P a → Yields (f a) Q) : Yields (x >>= f) Q := by
  intro c b next h
  cases hxc : x c with
  | ok a mid =>
    rw [bind_ok hxc] at h
    exact hf a (hx c a mid hxc) mid b next h
  | error e mid =>
    rw [bind_error hxc] at h
    cases h

theorem map (hx : Yields x P) {f : α → β} (hf : ∀ a, P a → Q (f a)) : Yields (f <$> x) Q := by
  intro c b next h
  cases hxc : x c with
  | ok a mid =>
    rw [map_ok hxc] at h
    cases h
    exact hf a (hx c a next hxc)
  | error e mid =>
    rw [map_error hxc] at h
    cases h

end Yields

theorem yields_unexpected {P : α → Prop} : Yields unexpected P := by
  intro c a next h
  unfold unexpected at h
  split at h <;> cases h

/-- A list of values is closed only after a value. -/
theorem yields_readElements (opening : Nat) (values : List String) :
    Yields (readElements opening values) (· ≠ []) := by
  intro c result next h
  fun_induction readElements opening values c with
  | case1 => cases h
  | case2 values c value next hel =>
    cases h
    simp
  | case3 values c value next hel ih => exact ih h

theorem yields_readLiteral : Yields readLiteral (· ≠ .list []) := by
  refine Yields.bind fun token => ?_
  split
  · refine Yields.bind fun c => ?_
    split
    · have hlist : Yields readValueList (· ≠ []) := fun c => yields_readElements _ _ _
      exact hlist.map (by simp)
    · exact yields_unexpected
  · exact .pure (by simp)

theorem yields_readComparison (first : Token) :
    Yields (readComparison first) fun c => c.value ≠ .list [] :=
  .bind fun _ => .bind fun _ => yields_readLiteral.bind_of fun _ h => .pure h

/-- An operand that is a comparison is regular. -/
theorem yields_readOperand :
    Yields readOperand fun o => ∀ x, o = .comparison x → x.value ≠ .list [] := by
  have hgroup : Yields (Operand.group <$> readGroup) fun o =>
      ∀ x, o = .comparison x → x.value ≠ .list [] := by
    have hany : Yields readGroup fun _ => True := fun _ _ _ _ => trivial
    refine hany.map fun inside _ x hx => ?_
    cases hx
  have hcomparison : Yields readComparisonOperand fun o =>
      ∀ x, o = .comparison x → x.value ≠ .list [] := by
    refine Yields.bind fun token => ?_
    split
    · exact yields_unexpected
    · refine (yields_readComparison token).map fun x hx y hy => ?_
      cases hy
      exact hx
  intro c operand next h
  unfold readOperand at h
  split at h
  · exact hgroup _ _ _ h
  · exact hcomparison _ _ _ h

end Scan

namespace Level

theorem isRegular_of_finish {level : Level} {offset : Nat} {e : Expression}
    (hoperands : ∀ x ∈ level.operands, x.IsRegular) (h : level.finish offset = .ok e) :
    e.IsRegular := by
  obtain ⟨operands, connective, expecting⟩ := level
  cases operands with
  | nil => cases h
  | cons first operands =>
    unfold finish at h
    dsimp only at h
    split at h
    · cases h
    · cases operands with
      | nil =>
        cases h
        exact hoperands e List.mem_cons_self
      | cons second operands =>
        cases connective with
        | none => cases h
        | some p =>
          cases h
          exact Expression.isRegular_logical.2 ⟨by simp, hoperands⟩

/-- What is read as the rest of a level is regular if the operands read before are. -/
theorem isRegular_of_parse {level : Level} {c : Cursor} {e : Expression}
    (hoperands : ∀ x ∈ level.operands, x.IsRegular) (h : level.parse c = .ok e) : e.IsRegular := by
  fun_induction parse level c generalizing e with
  | case1 level c hend => exact isRegular_of_finish hoperands h
  | case2 => cases h
  | case3 level c hend hexpecting x next hread ih =>
    refine ih (fun y hy => ?_) h
    rcases List.mem_append.1 hy with hy | hy
    · exact hoperands y hy
    · obtain rfl : y = .comparison x := by simpa using hy
      simpa [Expression.IsRegular] using Scan.yields_readOperand _ _ _ hread x rfl
  | case4 => cases h
  | case5 level c hend hexpecting inside next hread e' hinside ih ih' =>
    refine ih' (fun y hy => ?_) h
    rcases List.mem_append.1 hy with hy | hy
    · exact hoperands y hy
    · obtain rfl : y = e' := by simpa using hy
      exact ih (by simp [start]) hinside
  | case6 => cases h
  | case7 => cases h
  | case8 level c hend hexpecting op token next hread joined hjoin ih =>
    have hsame : joined.operands = level.operands := by
      unfold join at hjoin
      split at hjoin
      · cases hjoin
        rfl
      · split at hjoin
        · cases hjoin
          rfl
        · cases hjoin
    exact ih (hsame ▸ hoperands) h

end Level

/-- Every expression that is read is regular. -/
theorem Expression.isRegular_of_parse {text : String} {e : Expression} (h : parse text = .ok e) :
    e.IsRegular :=
  Level.isRegular_of_parse (by simp [Level.start]) h

end Eligibility
