import Eligibility.Expression.Parser
import Eligibility.Proofs.Runs

/-!
# Errors of scans

Some errors are about a level as a whole: that there is nothing in it, that it ends with a
connective, or that its connectives differ. All others are found by a scan at one place of the text.
No scan fails with an error of the first kind.
-/

namespace Eligibility

/-- An error that is found at one place of a text, and not by a look at a whole level. -/
def ParseError.IsLocal : ParseError → Prop
  | emptyExpression | mixedConnectives _ _ _ | danglingConnective => False
  | _ => True

namespace Scan

variable {α β : Type}

/-- A scan whose failures are local. -/
def FailsLocally (x : Scan α) : Prop := ∀ c e stopped, x c = .error e stopped → e.IsLocal

/-! ## Sequencing -/

namespace FailsLocally

theorem pure (a : α) : FailsLocally (pure a) := nofun

theorem get : FailsLocally (get : Scan Cursor) := nofun

theorem throw {e : ParseError} (h : e.IsLocal) : FailsLocally (throw e : Scan α) := by
  intro c e' stopped hthrow
  cases hthrow
  exact h

theorem bind {x : Scan α} {f : α → Scan β} (hx : FailsLocally x) (hf : ∀ a, FailsLocally (f a)) :
    FailsLocally (x >>= f) := by
  intro c e stopped h
  rcases bind_eq_error.1 h with hfailed | ⟨a, next, -, hnext⟩
  · exact hx c e stopped hfailed
  · exact hf a next e stopped hnext

theorem map {x : Scan α} (hx : FailsLocally x) (f : α → β) : FailsLocally (f <$> x) :=
  fun c e stopped h => hx c e stopped (map_eq_error.1 h)

end FailsLocally

/-! ## Tokens -/

theorem failsLocally_skipSpace : FailsLocally skipSpace := by
  intro c e stopped h
  unfold skipSpace at h
  dsimp only at h
  split at h
  · cases h
    trivial
  · cases h

theorem failsLocally_takeUntil (stop : Char → Bool) (required : Bool) :
    FailsLocally (takeUntil stop required) := by
  intro c e stopped h
  unfold takeUntil at h
  dsimp only at h
  split at h
  · cases h
    trivial
  · cases h

theorem failsLocally_readQuoted (quote : Char) : FailsLocally (readQuoted quote) := by
  intro c e stopped h
  unfold readQuoted at h
  split at h
  · cases h
  · cases h
    trivial

theorem failsLocally_unexpected : FailsLocally (unexpected : Scan α) := by
  intro c e stopped h
  unfold unexpected at h
  split at h
  all_goals
    cases h
    trivial

theorem failsLocally_readToken : FailsLocally readToken := by
  refine failsLocally_skipSpace.bind fun _ => FailsLocally.get.bind fun start => ?_
  split
  · exact (failsLocally_readQuoted _).bind fun _ => .pure _
  · exact (failsLocally_takeUntil _ _).bind fun _ => .pure _

theorem failsLocally_readWord : FailsLocally readWord := by
  refine failsLocally_readToken.bind fun token => ?_
  split
  · exact failsLocally_unexpected
  · exact .pure _

/-! ## Lists of values -/

theorem failsLocally_readValue (opening : Nat) (first : Bool) :
    FailsLocally (readValue opening first) := by
  intro c e stopped h
  unfold readValue at h
  dsimp only at h
  split at h
  · cases h
    trivial
  · split at h
    · cases h
      trivial
    · split at h
      · exact failsLocally_readQuoted _ _ _ _ h
      · exact (failsLocally_takeUntil _ _).map _ _ _ _ h

theorem failsLocally_readAfterValue (opening : Nat) : FailsLocally (readAfterValue opening) := by
  intro c e stopped h
  unfold readAfterValue at h
  dsimp only at h
  split at h
  · cases h
    trivial
  · split at h
    · cases h
    · split at h
      · cases h
      · cases h
        trivial

theorem failsLocally_readElement (opening : Nat) (first : Bool) :
    FailsLocally (readElement opening first) :=
  (failsLocally_readValue _ _).bind fun _ => (failsLocally_readAfterValue _).bind fun _ => .pure _

theorem failsLocally_readElements (opening : Nat) (values : List String) :
    FailsLocally (readElements opening values) := by
  intro c e stopped h
  fun_induction readElements opening values c with
  | case1 values c e' stopped' hel =>
    cases h
    exact failsLocally_readElement _ _ _ _ _ hel
  | case2 => cases h
  | case3 _ _ _ _ _ ih => exact ih h

theorem failsLocally_readValueList : FailsLocally readValueList :=
  fun c => failsLocally_readElements c.offset [] c.advance

/-! ## Comparisons -/

theorem failsLocally_expectDot (after : String) : FailsLocally (expectDot after) := by
  intro c e stopped h
  unfold expectDot at h
  dsimp only at h
  split at h
  · cases h
  · cases h
    trivial

theorem isLocal_of_scopeOfKind {source : String} {kind : Token} {e : ParseError}
    (h : scopeOfKind source kind = .error e) : e.IsLocal := by
  unfold scopeOfKind at h
  split at h
  · cases h
  · split at h
    · cases h
    · cases h
      trivial

theorem failsLocally_readAttribute (first : Token) : FailsLocally (readAttribute first) := by
  refine (failsLocally_expectDot _).bind fun _ => ?_
  split
  · exact failsLocally_readWord.bind fun _ => .pure _
  · refine failsLocally_readWord.bind fun kind => (failsLocally_expectDot _).bind fun _ => ?_
    split
    · rename_i hscope
      exact .throw (isLocal_of_scopeOfKind hscope)
    · exact failsLocally_readWord.bind fun _ => .pure _

theorem failsLocally_readOperator : FailsLocally readOperator := by
  refine failsLocally_readWord.bind fun token => ?_
  split
  · exact .pure _
  · exact .throw trivial

theorem failsLocally_readLiteral : FailsLocally readLiteral := by
  refine failsLocally_readToken.bind fun token => ?_
  split
  · refine FailsLocally.get.bind fun _ => ?_
    split
    · exact failsLocally_readValueList.map _
    · exact failsLocally_unexpected
  · exact .pure _

theorem failsLocally_readComparison (first : Token) : FailsLocally (readComparison first) :=
  (failsLocally_readAttribute _).bind fun _ => failsLocally_readOperator.bind fun _ =>
    failsLocally_readLiteral.bind fun _ => .pure _

/-! ## Operands and connectives -/

theorem isLocal_of_step {opening : Nat} {s : GroupSearch} {e : ParseError} {stopped : Cursor}
    (h : s.step opening = .failed e stopped) : e.IsLocal := by
  unfold GroupSearch.step at h
  split at h
  · cases h
    trivial
  · split at h
    · cases h
    · split at h
      · split at h <;> cases h
      · split at h
        · split at h
          · cases h
          · rename_i hread
            cases h
            exact failsLocally_readQuoted _ _ _ _ hread
        · cases h

theorem isLocal_of_run {opening : Nat} {s : GroupSearch} {e : ParseError} {stopped : Cursor}
    (h : s.run opening = .error e stopped) : e.IsLocal := by
  fun_induction GroupSearch.run opening s with
  | case1 _ _ _ ih => exact ih h
  | case2 => cases h
  | case3 _ _ _ hstep =>
    cases h
    exact isLocal_of_step hstep

theorem failsLocally_readGroup : FailsLocally readGroup := by
  intro c e stopped h
  unfold readGroup at h
  split at h
  · cases h
  · rename_i hrun
    cases h
    exact isLocal_of_run hrun

theorem failsLocally_readComparisonOperand : FailsLocally readComparisonOperand := by
  refine failsLocally_readToken.bind fun token => ?_
  split
  · exact failsLocally_unexpected
  · exact (failsLocally_readComparison _).map _

theorem failsLocally_readOperand : FailsLocally readOperand := by
  intro c e stopped h
  unfold readOperand at h
  split at h
  · exact failsLocally_readGroup.map _ _ _ _ h
  · exact failsLocally_readComparisonOperand _ _ _ h

theorem failsLocally_readConnective : FailsLocally readConnective := by
  refine failsLocally_readToken.bind fun token => ?_
  split
  · exact .pure _
  · exact .throw trivial

end Scan

end Eligibility
