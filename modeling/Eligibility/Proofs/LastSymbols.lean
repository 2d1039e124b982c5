import Mathlib.Data.List.Basic
import Eligibility.Proofs.Soundness
import Eligibility.Proofs.Trimming

/-!
# How a text that is read ends

The last symbol of a text that is read is a parenthesis that closes, a quoted string, or a value
without quotes behind an operator and blanks (`EndsWith`). Whitespace behind it that is no blank can
only be the end of such a value. So the text and what is left without the whitespace do not end with
the same value (`not_endsWith_both`).
-/

namespace Eligibility

/-! ## Stretches at the end of a text -/

/-- A text has one longest stretch at its end of characters with a property. -/
theorem append_stretch_inj {p : Char → Bool} {a b v v' : List Char}
    (ha : ∀ d ∈ a.getLast?, p d = false) (hb : ∀ d ∈ b.getLast?, p d = false)
    (hv : ∀ d ∈ v, p d = true) (hv' : ∀ d ∈ v', p d = true) (h : a ++ v = b ++ v') :
    a = b ∧ v = v' := by
  have hreverse : v.reverse ++ a.reverse = v'.reverse ++ b.reverse := by
    rw [← List.reverse_append, h, List.reverse_append]
  have hdrop := congrArg (List.dropWhile p) hreverse
  have htake := congrArg (List.takeWhile p) hreverse
  rw [dropWhile_stretch (by simpa using hv) (by simpa using ha),
    dropWhile_stretch (by simpa using hv') (by simpa using hb)] at hdrop
  rw [takeWhile_stretch (by simpa using hv) (by simpa using ha),
    takeWhile_stretch (by simpa using hv') (by simpa using hb)] at htake
  exact ⟨List.reverse_inj.1 hdrop, List.reverse_inj.1 htake⟩

/-! ## Whitespace and keywords -/

theorem toLower_of_isWhitespace {c : Char} (h : isWhitespace c = true) : c.toLower = c := by
  unfold Char.toLower
  split
  · rename_i hupper
    have hrange : 65 ≤ c.toNat ∧ c.toNat ≤ 90 := by
      simpa [UInt32.le_iff_toNat_le] using hupper
    simp only [isWhitespace, Bool.or_eq_true, Bool.and_eq_true, decide_eq_true_eq,
      beq_iff_eq] at h
    omega
  · rfl

theorem SpellsKeyword.not_isWhitespace {keyword : String} {w : List Char}
    (h : SpellsKeyword keyword w)
    (hkeyword : (keyword.toList.all fun c => !isWhitespace c) = true) :
    ∀ c ∈ w, isWhitespace c = false := by
  intro c hc
  refine Bool.eq_false_iff.2 fun hspace => ?_
  have hmem : c.toLower ∈ keyword.toList := by
    rw [← h]
    exact List.mem_map_of_mem hc
  rw [toLower_of_isWhitespace hspace] at hmem
  simpa [hspace] using List.all_eq_true.1 hkeyword c hmem

theorem Operator.not_isWhitespace_keyword (op : Operator) :
    (op.keyword.toList.all fun c => !isWhitespace c) = true := by
  cases op <;> decide

theorem not_isWhitespace_of_isQuote {c : Char} (h : isQuote c = true) : isWhitespace c = false := by
  rcases isQuote_eq_true_iff.1 h with rfl | rfl <;> decide

/-! ## What a symbol leaves is an end of the text -/

theorem DerivesMark.suffix {d : Char} {s t : List Char} (h : DerivesMark d s t) : d :: t <:+ s := by
  cases h with
  | @mk u _ hu => exact ⟨u, rfl⟩

theorem DerivesQuoted.suffix {x : String} {s t : List Char} (h : DerivesQuoted x s t) :
    ∃ w, SpellsQuoted x w ∧ w ++ t <:+ s := by
  cases h with
  | @mk u _ quote hu hquote ht => exact ⟨_, .mk quote hquote, u, by simp⟩

theorem DerivesRun.suffix {w s t : List Char} (h : DerivesRun w s t) : w ++ t <:+ s := by
  cases h with
  | @mk u _ hu => exact ⟨u, by simp⟩

theorem DerivesRun.endsToken {w s t : List Char} (h : DerivesRun w s t) : EndsToken t := by
  cases h with
  | mk _ _ _ _ ht => exact ht

theorem DerivesRun.ne_nil {w s t : List Char} (h : DerivesRun w s t) : w ≠ [] := by
  cases h with
  | mk _ hne _ _ _ => exact hne

theorem DerivesRun.plain {w s t : List Char} (h : DerivesRun w s t) :
    ∀ c ∈ w, isDelimiter c = false := by
  cases h with
  | mk _ _ _ hplain _ => exact hplain

/-- What stands behind a part of a text stands behind the part before it too. -/
theorem suffix_of_append {w s t : List Char} (h : w ++ t <:+ s) : t <:+ s :=
  (List.suffix_append w t).trans h

theorem DerivesToken.suffix {x : String} {s t : List Char} (h : DerivesToken x s t) : t <:+ s := by
  cases h with
  | quoted h =>
    obtain ⟨w, -, hw⟩ := h.suffix
    exact suffix_of_append hw
  | bare h => exact suffix_of_append h.suffix

theorem DerivesKeyword.suffix {keyword : String} {s t : List Char}
    (h : DerivesKeyword keyword s t) : t <:+ s := by
  cases h with
  | mk hrun _ => exact suffix_of_append hrun.suffix

theorem DerivesMark.suffix_tail {d : Char} {s t : List Char} (h : DerivesMark d s t) : t <:+ s :=
  (List.suffix_cons d t).trans h.suffix

theorem DerivesAttribute.suffix {a : Attribute} {s t : List Char} (h : DerivesAttribute a s t) :
    t <:+ s := by
  cases h with
  | identity hk hdot hproperty =>
    exact (hproperty.suffix.trans hdot.suffix_tail).trans hk.suffix
  | account hsource hdot hk hdot' hproperty | entitlement hsource hdot hk hdot' hproperty =>
    exact (((hproperty.suffix.trans hdot'.suffix_tail).trans hk.suffix).trans
      hdot.suffix_tail).trans hsource.suffix

theorem DerivesElement.suffix {x : String} {s t : List Char} (h : DerivesElement x s t) :
    t <:+ s := by
  cases h with
  | quoted h =>
    obtain ⟨w, -, hw⟩ := h.suffix
    exact suffix_of_append hw
  | bare => exact List.suffix_append _ _

theorem DerivesElements.suffix {xs : List String} {s t : List Char} (h : DerivesElements xs s t) :
    t <:+ s := by
  induction h with
  | last hx => exact hx.suffix
  | cons hx hcomma _ ih => exact (ih.trans hcomma.suffix_tail).trans hx.suffix

/-! ## The last symbol -/

/-- The last symbol that was read before `t` in the text `s`, if the value of the last comparison is
as given: a parenthesis that closes, or the value itself. Without quotes, the value stands behind an
operator and blanks. -/
inductive EndsWith (value : Literal) (s t : List Char) : Prop where
  | closing (h : ')' :: t <:+ s)
  | quoted {x : String} {w : List Char} (hvalue : value = .single x) (hw : SpellsQuoted x w)
      (h : w ++ t <:+ s)
  | word {x : String} {op : Operator} {k u : List Char} (hvalue : value = .single x)
      (hk : SpellsKeyword op.keyword k) (hu : AllBlank u) (hu' : u ≠ []) (hx : x.toList ≠ [])
      (hplain : ∀ c ∈ x.toList, isDelimiter c = false) (h : k ++ u ++ x.toList ++ t <:+ s)

theorem EndsWith.mono {value : Literal} {s s' t : List Char} (h : EndsWith value s t)
    (hs : s <:+ s') : EndsWith value s' t := by
  cases h with
  | closing h => exact .closing (h.trans hs)
  | quoted hvalue hw h => exact .quoted hvalue hw (h.trans hs)
  | word hvalue hk hu hu' hx hplain h => exact .word hvalue hk hu hu' hx hplain (h.trans hs)

theorem EndsWith.suffix {value : Literal} {s t : List Char} (h : EndsWith value s t) : t <:+ s := by
  cases h with
  | closing h => exact (List.suffix_cons _ _).trans h
  | quoted _ _ h => exact suffix_of_append h
  | word _ _ _ _ _ _ h => exact suffix_of_append h

theorem endsWith_of_derivesComparison {x : Comparison} {s t : List Char}
    (h : DerivesComparison x s t) : EndsWith x.value s t := by
  obtain ⟨hsubject, hoperator, hvalue⟩ := h
  refine EndsWith.mono ?_ hsubject.suffix
  generalize x.value = value at hvalue
  cases hvalue with
  | list hopen _ hxs hclose =>
    exact .closing (((hclose.suffix.trans hxs.suffix).trans hopen.suffix_tail).trans
      hoperator.suffix)
  | single hx =>
    cases hx with
    | quoted hx =>
      obtain ⟨w, hw, hsuffix⟩ := hx.suffix
      exact .quoted rfl hw (hsuffix.trans hoperator.suffix)
    | bare hx =>
      obtain ⟨hrun, hk⟩ := hoperator
      obtain ⟨hu, hne, -, hplain, -⟩ := hx
      rename_i u
      -- the operator ends at a delimiter, and the value begins with no delimiter
      have hu' : u ≠ [] := by
        rintro rfl
        obtain ⟨c, tail, hcons⟩ := List.exists_cons_of_ne_nil hne
        have hends := hrun.endsToken
        have hc := hplain c (by simp [hcons])
        simp [hcons, hc] at hends
      have hsuffix := hrun.suffix
      refine .word rfl hk hu hu' hne hplain ?_
      simpa using hsuffix

/-- The last symbol of further operands is that of all of them; without any, the last symbol is that
of the first one. -/
theorem endsWith_cons {e : Expression} {es : List Expression} {s a t : List Char}
    (he : ∃ x ∈ e.comparisons.getLast?, EndsWith x.value s a)
    (hes : (es = [] ∧ a = t) ∨
      ∃ x ∈ (Expression.comparisonsAll es).getLast?, EndsWith x.value a t) :
    ∃ x ∈ (Expression.comparisonsAll (e :: es)).getLast?, EndsWith x.value s t := by
  obtain ⟨y, hy, hfirst⟩ := he
  rcases hes with ⟨rfl, rfl⟩ | ⟨x, hx, hends⟩
  · exact ⟨y, by simpa [Expression.comparisonsAll] using hy, hfirst⟩
  · refine ⟨x, ?_, hends.mono hfirst.suffix⟩
    rw [Expression.comparisonsAll, List.getLast?_append, Option.mem_def.1 hx]
    rfl

mutual

theorem endsWith_of_derivesOperand : ∀ {e : Expression} {s t : List Char},
    DerivesOperand e s t → ∃ x ∈ e.comparisons.getLast?, EndsWith x.value s t
  | _, _, _, .comparison hx => ⟨_, rfl, endsWith_of_derivesComparison hx⟩
  | _, _, _, .group hopen he hclose => by
    obtain ⟨x, hx, hends⟩ := endsWith_of_derivesLevel he
    exact ⟨x, hx, .closing ((hclose.suffix.trans hends.suffix).trans hopen.suffix_tail)⟩

theorem endsWith_of_derivesMore : ∀ {op : Connective} {es : List Expression} {s t : List Char},
    DerivesMore op es s t → (es = [] ∧ s = t) ∨
      ∃ x ∈ (Expression.comparisonsAll es).getLast?, EndsWith x.value s t
  | _, _, _, _, .nil => .inl ⟨rfl, rfl⟩
  | _, _, _, _, .cons hop he hes => by
    obtain ⟨x, hx, hends⟩ :=
      endsWith_cons (endsWith_of_derivesOperand he) (endsWith_of_derivesMore hes)
    exact .inr ⟨x, hx, hends.mono hop.suffix⟩

theorem endsWith_of_derivesLevel : ∀ {e : Expression} {s t : List Char},
    DerivesLevel e s t → ∃ x ∈ e.comparisons.getLast?, EndsWith x.value s t
  | _, _, _, .operand he => endsWith_of_derivesOperand he
  | _, _, _, .logical he hes _ =>
    endsWith_cons (endsWith_of_derivesOperand he) (endsWith_of_derivesMore hes)

end

/-! ## Whitespace behind a text -/

/-- The last character that is no blank, in a text that ends in more than blanks. -/
theorem exists_of_last_not_blank {b t y v : List Char} {c : Char} (ht : AllBlank t)
    (hv : ¬ AllBlank v) (h : b ++ c :: t = y ++ v) : ∃ m, v = m ++ c :: t ∧ b = y ++ m := by
  rcases List.append_eq_append_iff.1 h with ⟨m, hy, hm⟩ | ⟨m, hb, hm⟩
  · cases m with
    | nil => exact ⟨[], hm.symm, by simpa using hy.symm⟩
    | cons d m =>
      refine absurd (fun e he => ht e ?_) hv
      rw [(List.cons.inj hm).2]
      exact List.mem_append_right m he
  · exact ⟨m, hm, hb⟩

theorem mem_of_singleton_suffix {c : Char} {b n : List Char} (hn : n ≠ [])
    (h : [c] <:+ b ++ n) : c ∈ n := by
  have hsuffix : [c] <:+ n :=
    List.suffix_of_suffix_length_le h (List.suffix_append b n) (List.length_pos_iff.2 hn)
  exact hsuffix.subset List.mem_cons_self

theorem mem_doubled {quote c : Char} {text : List Char} (h : c ∈ doubled quote text) :
    c = quote ∨ c ∈ text := by
  induction text with
  | nil => cases h
  | cons d text ih =>
    by_cases hd : d = quote
    · rw [hd, doubled_cons_self, List.mem_cons, List.mem_cons] at h
      rcases h with rfl | rfl | h
      · exact .inl rfl
      · exact .inl rfl
      · exact (ih h).imp_right (List.mem_cons_of_mem d)
    · rw [doubled_cons_of_ne hd, List.mem_cons] at h
      rcases h with rfl | h
      · exact .inr List.mem_cons_self
      · exact (ih h).imp_right (List.mem_cons_of_mem d)

theorem SpellsQuoted.not_isDelimiter {x : String} {w : List Char} (h : SpellsQuoted x w)
    (hplain : ∀ c ∈ x.toList, isDelimiter c = false) : ∀ c ∈ w, isDelimiter c = false := by
  obtain ⟨quote, hquote⟩ := h
  intro c hc
  have hcases : c = quote ∨ c ∈ x.toList := by
    rw [List.cons_append, List.mem_cons, List.mem_append, List.mem_singleton] at hc
    rcases hc with hc | hc | hc
    · exact .inl hc
    · exact mem_doubled hc
    · exact .inl hc
  rcases hcases with rfl | hc
  · refine Bool.eq_false_iff.2 fun hdelimiter => ?_
    rw [not_isQuote_of_isDelimiter hdelimiter] at hquote
    cases hquote
  · exact hplain c hc

theorem length_le_doubled (quote : Char) (text : List Char) :
    text.length ≤ (doubled quote text).length := by
  induction text with
  | nil => exact Nat.le_refl 0
  | cons d text ih =>
    by_cases hd : d = quote
    · rw [hd, doubled_cons_self]
      simp only [List.length_cons]
      omega
    · rw [doubled_cons_of_ne hd]
      simpa using ih

theorem SpellsQuoted.length_lt {x : String} {w : List Char} (h : SpellsQuoted x w) :
    x.toList.length < w.length := by
  obtain ⟨quote, hquote⟩ := h
  have hlength := length_le_doubled quote x.toList
  simp only [List.length_append, List.length_cons]
  omega

/-- A text that ends in whitespace does not stand at the end of a text that does not. -/
theorem not_suffix_of_whitespace {x y : List Char} (hx : x ≠ [])
    (hlast : ∀ c ∈ x.getLast?, isWhitespace c = true)
    (hy : ∀ c ∈ y.getLast?, isWhitespace c = false) : ¬ x <:+ y := by
  rintro ⟨b, rfl⟩
  have hmem : x.getLast hx ∈ x.getLast? := List.getLast?_eq_some_getLast hx
  have hspace := hlast _ hmem
  rw [hy _ (by rw [List.getLast?_append, Option.mem_def.1 hmem]; rfl)] at hspace
  cases hspace

/-- A word between quotes is longer than the word, so it does not stand where a part of the word
stands behind blanks. -/
theorem not_suffix_of_blanks {x : String} {b w u n : List Char} (hw : SpellsQuoted x w)
    (hplain : ∀ c ∈ x.toList, isDelimiter c = false) (hu : AllBlank u) (hu' : u ≠ [])
    (hn : n.length ≤ x.toList.length) : ¬ w <:+ b ++ u ++ n := by
  intro hsuffix
  have hlength := hw.length_lt
  obtain ⟨m, hm⟩ : n <:+ w :=
    List.suffix_of_suffix_length_le (List.suffix_append (b ++ u) n) hsuffix (by omega)
  obtain ⟨a, ha⟩ := hsuffix
  rw [← hm, ← List.append_assoc] at ha
  -- the last character before the part is one of the blanks and one of the quoted word
  have hm' : m ≠ [] := by
    rintro rfl
    simp only [← hm, List.nil_append] at hlength
    omega
  have hlast := congrArg List.getLast? (List.append_cancel_right ha)
  rw [List.getLast?_append, List.getLast?_append, List.getLast?_eq_some_getLast hm',
    List.getLast?_eq_some_getLast hu', Option.some_or, Option.some_or, Option.some.injEq] at hlast
  have hblank := isDelimiter_of_isBlank (hu _ (List.getLast_mem hu'))
  have hmem : m.getLast hm' ∈ w := by
    rw [← hm]
    exact List.mem_append_left n (List.getLast_mem hm')
  rw [← hlast, hw.not_isDelimiter hplain _ hmem] at hblank
  cases hblank

/-- A value without quotes that ends in whitespace, and that loses its end in `y`, is not the value
that stands at the end of `y`. -/
theorem not_endsWith_of_word {x : String} {op : Operator} {b k u y m : List Char}
    (hk : SpellsKeyword op.keyword k) (hu : AllBlank u) (hu' : u ≠ []) (hx : x.toList ≠ [])
    (hplain : ∀ c ∈ x.toList, isDelimiter c = false)
    (hlast : ∀ c ∈ x.toList.getLast?, isWhitespace c = true)
    (hy : ∀ c ∈ y.getLast?, isWhitespace c = false) (hm : AllWhitespace m)
    (h : b ++ k ++ u ++ x.toList = y ++ m) : ¬ EndsWith (.single x) y [] := by
  have hne : ¬ x.toList <:+ y := not_suffix_of_whitespace hx hlast hy
  intro hends
  rcases List.append_eq_append_iff.1 h with ⟨n, rfl, hxn⟩ | ⟨n, hyn, hmn⟩
  · -- a part of the value is left, behind the operator and blanks
    have hn : n ≠ [] := by
      rintro rfl
      have hblank := Scan.isWhitespace_of_isBlank (hu _ (List.getLast_mem hu'))
      rw [hy _ (by simp [List.getLast?_append, List.getLast?_eq_some_getLast hu'])] at hblank
      cases hblank
    cases hends with
    | closing hs =>
      have hmem : ')' ∈ x.toList := by
        rw [hxn]
        exact List.mem_append_left m (mem_of_singleton_suffix hn hs)
      cases hplain ')' hmem
    | quoted hvalue hw hs =>
      cases hvalue
      have hlength : n.length ≤ x.toList.length := by simp [hxn]
      rw [List.append_nil] at hs
      exact not_suffix_of_blanks hw hplain hu hu' hlength hs
    | word hvalue _ _ _ _ _ hs =>
      cases hvalue
      rw [List.append_nil] at hs
      exact hne (suffix_of_append hs)
  · -- nothing of the value is left, and the operator stands at the end
    have hk' := hk.not_isWhitespace op.not_isWhitespace_keyword
    have hk'' := hk.ne_nil op.isPlain_keyword
    obtain ⟨rfl, -⟩ : b ++ k = y ∧ u = n := by
      refine append_stretch_inj ?_ hy (fun c hc => Scan.isWhitespace_of_isBlank (hu c hc))
        (fun c hc => hm c ?_) hyn
      · rw [List.getLast?_append, List.getLast?_eq_some_getLast hk'']
        rintro c ⟨⟩
        exact hk' _ (List.getLast_mem hk'')
      · rw [hmn]
        exact List.mem_append_left _ hc
    cases hends with
    | closing hs =>
      cases (hk.plain op.isPlain_keyword _ (mem_of_singleton_suffix hk'' hs)).1
    | quoted hvalue hw hs =>
      obtain ⟨quote, hquote⟩ := hw
      rw [List.append_nil] at hs
      have hlast := (List.suffix_append _ [quote]).trans hs
      rw [(hk.plain op.isPlain_keyword _ (mem_of_singleton_suffix hk'' hlast)).2] at hquote
      cases hquote
    | word hvalue _ _ _ _ _ hs =>
      cases hvalue
      rw [List.append_nil] at hs
      exact hne (suffix_of_append hs)

/-- A text and the same text with more than blanks behind it do not end with the same value. -/
theorem not_endsWith_both {value : Literal} {y v t : List Char}
    (hy : ∀ c ∈ y.getLast?, isWhitespace c = false) (hv : AllWhitespace v) (hv' : ¬ AllBlank v)
    (ht : AllBlank t) (h : EndsWith value (y ++ v) t) : ¬ EndsWith value y [] := by
  cases h with
  | closing h =>
    obtain ⟨b, hb⟩ := h
    obtain ⟨m, rfl, -⟩ := exists_of_last_not_blank ht hv' hb
    cases hv ')' (by simp)
  | quoted hvalue hw h =>
    obtain ⟨quote, hquote⟩ := hw
    obtain ⟨b, hb⟩ := h
    obtain ⟨m, rfl, -⟩ := exists_of_last_not_blank (b := b ++ quote :: doubled quote _) ht hv'
      (by simpa using hb)
    have hspace := hv quote (by simp)
    rw [not_isWhitespace_of_isQuote hquote] at hspace
    cases hspace
  | @word x op k u hvalue hk hu hu' hx hplain h =>
    obtain ⟨b, hb⟩ := h
    obtain ⟨x₀, z, hxz⟩ : ∃ x₀ z, x.toList = x₀ ++ [z] :=
      ⟨_, _, (List.dropLast_concat_getLast hx).symm⟩
    obtain ⟨m, rfl, hm⟩ := exists_of_last_not_blank (b := b ++ k ++ u ++ x₀) ht hv'
      (by simpa [hxz] using hb)
    rw [hvalue]
    have hspace : isWhitespace z = true := hv z (by simp)
    refine not_endsWith_of_word (m := m ++ [z]) (b := b) hk hu hu' hx hplain ?_ hy ?_ ?_
    · simpa [hxz] using hspace
    · intro c hc
      refine hv c ?_
      rw [← List.singleton_append, ← List.append_assoc]
      exact List.mem_append_left t hc
    · rw [hxz, ← List.append_assoc, hm, List.append_assoc]

end Eligibility
