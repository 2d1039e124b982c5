import Eligibility.Proofs.LastSymbols

/-!
# How a text that is read begins

The first symbol of a text that is read is a parenthesis that opens, the keyword for the identity,
or the name of a source, which a dot follows (`BeginsWith`). Whitespace before it that is no blank
can only be the start of such a name. So the text and what is left without the whitespace do not
begin with the same comparison (`not_beginsWith_both`).
-/

namespace Eligibility

/-! ## The first symbol -/

/-- The first symbol of a text whose first comparison is as given, unless it is a parenthesis: the
keyword for the identity, or the name of the source and a dot. -/
inductive BeginsWith (x : Comparison) (s : List Char) : Prop where
  | identity {a : List Char} (hscope : x.subject.scope = .identity)
      (hk : DerivesKeyword "identity" s a)
  | source {name : String} {a b : List Char} (hscope : x.subject.scope.source? = some name)
      (hname : DerivesToken name s a) (hdot : DerivesMark '.' a b)

theorem beginsWith_of_derivesComparison {x : Comparison} {s t : List Char}
    (h : DerivesComparison x s t) : BeginsWith x s := by
  obtain ⟨hsubject, -, -⟩ := h
  generalize hx : x.subject = subject at hsubject
  cases hsubject with
  | identity hk _ _ => exact .identity (by rw [hx]) hk
  | account hsource hdot _ _ _ | entitlement hsource hdot _ _ _ =>
    exact .source (by rw [hx]; rfl) hsource hdot

theorem beginsWith_of_derivesOperand {e : Expression} {s t : List Char}
    (h : DerivesOperand e s t) :
    (∃ a, DerivesMark '(' s a) ∨ ∃ x ∈ e.comparisons.head?, BeginsWith x s := by
  cases h with
  | comparison hx => exact .inr ⟨_, rfl, beginsWith_of_derivesComparison hx⟩
  | group hopen _ _ => exact .inl ⟨_, hopen⟩

theorem beginsWith_of_derivesLevel {e : Expression} {s t : List Char} (h : DerivesLevel e s t) :
    (∃ a, DerivesMark '(' s a) ∨ ∃ x ∈ e.comparisons.head?, BeginsWith x s := by
  cases h with
  | operand he => exact beginsWith_of_derivesOperand he
  | @logical op e es _ _ _ he _ _ =>
    refine (beginsWith_of_derivesOperand he).imp_right fun ⟨x, hx, hbegins⟩ => ⟨x, ?_, hbegins⟩
    rw [Expression.comparisons, Expression.comparisonsAll, List.head?_append, Option.mem_def.1 hx]
    rfl

/-! ## Whitespace before a text -/

/-- The first character that is no blank, in a text that begins with more than blanks. -/
theorem exists_first_not_blank {u : List Char} (h : ¬ AllBlank u) :
    ∃ a d b, u = a ++ d :: b ∧ AllBlank a ∧ isBlank d = false := by
  obtain ⟨ha, hd⟩ := takeWhile_dropWhile isBlank u
  have hsplit := List.takeWhile_append_dropWhile (p := isBlank) (l := u)
  cases hdrop : u.dropWhile isBlank with
  | nil =>
    rw [hdrop, List.append_nil] at hsplit
    exact absurd (hsplit ▸ ha) h
  | cons d b =>
    rw [hdrop] at hsplit
    exact ⟨_, d, b, hsplit.symm, ha, hd d (by rw [hdrop]; rfl)⟩

/-- Behind the blanks at the start of a text, its first symbol begins. -/
theorem blanks_inj {a b s t : List Char} (ha : AllBlank a) (hb : AllBlank b)
    (hs : ∀ c ∈ s.head?, isBlank c = false) (ht : ∀ c ∈ t.head?, isBlank c = false)
    (h : a ++ s = b ++ t) : s = t := by
  have hdrop := congrArg (List.dropWhile isBlank) h
  rwa [dropWhile_stretch ha hs, dropWhile_stretch hb ht] at hdrop

theorem DerivesMark.of_first {d c : Char} {a tail t : List Char}
    (h : DerivesMark d (a ++ c :: tail) t) (ha : AllBlank a) (hc : isBlank c = false)
    (hd : isBlank d = false) : c = d := by
  generalize hs : a ++ c :: tail = s at h
  obtain ⟨hu⟩ := h
  exact (List.cons.inj (blanks_inj ha hu (by simpa using hc) (by simpa using hd) hs)).1

theorem DerivesRun.of_first {w a s t : List Char} (h : DerivesRun w (a ++ s) t) (ha : AllBlank a)
    (hs : ∀ c ∈ s.head?, isBlank c = false) : s = w ++ t := by
  generalize hs' : a ++ s = s' at h
  obtain ⟨hu, hne, -, hplain, -⟩ := h
  obtain ⟨c, w, rfl⟩ := List.exists_cons_of_ne_nil hne
  rw [List.append_assoc] at hs'
  have hc := not_isBlank_of_not_isDelimiter (hplain c List.mem_cons_self)
  exact blanks_inj ha hu hs (by simpa using hc) hs'

theorem DerivesQuoted.of_first {x : String} {a s t : List Char} (h : DerivesQuoted x (a ++ s) t)
    (ha : AllBlank a) (hs : ∀ c ∈ s.head?, isBlank c = false) :
    ∃ w, SpellsQuoted x w ∧ s = w ++ t := by
  generalize hs' : a ++ s = s' at h
  obtain ⟨hu, hquote, -⟩ := h
  rename_i u quote
  have hblank : isBlank quote = false := by
    rcases isQuote_eq_true_iff.1 hquote with rfl | rfl <;> rfl
  rw [List.append_assoc] at hs'
  exact ⟨_, .mk quote hquote, blanks_inj ha hu hs (by simpa using hblank) hs'⟩

/-- A text that begins with other whitespace than blanks begins with the name of a source, which
begins with that whitespace. -/
theorem source_of_beginsWith {x : Comparison} {a tail : List Char} {d : Char} (ha : AllBlank a)
    (hd : isBlank d = false) (hspace : isWhitespace d = true) (h : BeginsWith x (a ++ d :: tail)) :
    ∃ name u b, x.subject.scope.source? = some name ∧ name.toList ≠ [] ∧
      (∀ c ∈ name.toList, isDelimiter c = false) ∧ AllBlank u ∧
      d :: tail = name.toList ++ (u ++ '.' :: b) := by
  have hhead : ∀ c ∈ (d :: tail).head?, isBlank c = false := by simpa using hd
  cases h with
  | identity _ hk =>
    obtain ⟨hrun, hk⟩ := hk
    have hw := hrun.of_first ha hhead
    obtain ⟨c, w, rfl⟩ := List.exists_cons_of_ne_nil (hk.ne_nil isPlain_identity)
    have hc := hk.not_isWhitespace (by decide) c List.mem_cons_self
    rw [← (List.cons.inj hw).1, hspace] at hc
    cases hc
  | source hscope hname hdot =>
    cases hname with
    | quoted hname =>
      obtain ⟨_, ⟨quote, hquote⟩, hw⟩ := hname.of_first ha hhead
      have hc := not_isWhitespace_of_isQuote hquote
      rw [← (List.cons.inj hw).1, hspace] at hc
      cases hc
    | bare hname =>
      have hw := hname.of_first ha hhead
      obtain ⟨hu⟩ := hdot
      exact ⟨_, _, _, hscope, hname.ne_nil, hname.plain, hu, hw⟩

/-- Where the name of a source, blanks and a dot begin with whitespace, the text behind the
whitespace begins with the dot, or else the name has not ended yet. -/
theorem source_goes_on {name space u b r : List Char} (hspace : AllWhitespace space)
    (hu : AllBlank u) (hr : ∀ c ∈ r.head?, isWhitespace c = false)
    (h : space ++ r = name ++ (u ++ '.' :: b)) :
    r.head? = some '.' ∨ ∃ k, k ≠ [] ∧ name = space ++ k ∧ r = k ++ (u ++ '.' :: b) := by
  -- whitespace does not reach beyond the dot
  have hfirst : ∀ m n, r = m ++ '.' :: n → AllBlank m → r.head? = some '.' := by
    rintro m n rfl hm
    cases m with
    | nil => rfl
    | cons c m =>
      have hc := hr c rfl
      rw [Scan.isWhitespace_of_isBlank (hm c List.mem_cons_self)] at hc
      cases hc
  rcases List.append_eq_append_iff.1 h with ⟨k, hname, hk⟩ | ⟨m, hsplit, hm⟩
  · cases k with
    | nil => exact .inl (hfirst u b hk hu)
    | cons c k => exact .inr ⟨c :: k, by simp, hname, hk⟩
  · rcases List.append_eq_append_iff.1 hm with ⟨n, hmn, hn⟩ | ⟨n, hun, hn⟩
    · cases n with
      | nil => exact .inl (by rw [← show '.' :: b = r from hn]; rfl)
      | cons c n =>
        obtain rfl : '.' = c := (List.cons.inj hn).1
        cases hspace '.' (by simp [hsplit, hmn])
    · exact .inl (hfirst n b hn fun c hc => hu c (by simp [hun, hc]))

theorem not_isBlank_of_not_isWhitespace {c : Char} (h : isWhitespace c = false) :
    isBlank c = false := by
  refine Bool.eq_false_iff.2 fun hblank => ?_
  rw [Scan.isWhitespace_of_isBlank hblank] at h
  cases h

/-- A token at the start of a text goes no further than to where tokens end. -/
theorem length_le_of_endsToken {q k r s : List Char} (hq : ∀ c ∈ q, isDelimiter c = false)
    (hs : EndsToken s) (h : q ++ r = k ++ s) : q.length ≤ k.length := by
  rcases List.append_eq_append_iff.1 h with ⟨m, rfl, -⟩ | ⟨m, rfl, rfl⟩
  · simp
  · cases m with
    | nil => simp
    | cons c m =>
      have hc := hq c (by simp)
      rw [hs c rfl] at hc
      cases hc

/-- A name that begins with whitespace is not read where the whitespace is missing. -/
theorem not_derivesToken_of_goes_on {name : String} {d c : Char} {tail w v u b t : List Char}
    (hname : name.toList ≠ []) (hplain : ∀ e ∈ name.toList, isDelimiter e = false)
    (hu : AllBlank u) (hd : isWhitespace d = true) (hc : isWhitespace c = false)
    (h : (c :: w ++ v).head? = some '.' ∨ ∃ k, k ≠ [] ∧ name.toList = d :: tail ++ k ∧
      c :: w ++ v = k ++ (u ++ '.' :: b)) : ¬ DerivesToken name (c :: w) t := by
  have hhead : ∀ e ∈ (c :: w).head?, isBlank e = false := by
    simpa using not_isBlank_of_not_isWhitespace hc
  rintro (hquoted | hrun)
  · -- the name between quotes is longer than what is left of the name
    obtain ⟨q, hq, hsplit⟩ := hquoted.of_first (a := []) allBlank_nil hhead
    rcases h with hdot | ⟨k, -, hnamek, hrest⟩
    · obtain ⟨quote, hquote⟩ := hq
      obtain rfl : c = '.' := by simpa using hdot
      rw [← (List.cons.inj hsplit).1] at hquote
      cases hquote
    · have hlength := hq.length_lt
      have hends : EndsToken (u ++ '.' :: b) := EndsToken.blanks hu (.inr (endsToken_cons.2 rfl))
      rw [hsplit, List.append_assoc] at hrest
      have hle := length_le_of_endsToken (hq.not_isDelimiter hplain) hends hrest
      simp only [hnamek, List.length_append] at hlength
      omega
  · -- the name without quotes begins with its own first character
    have hsplit := hrun.of_first (a := []) allBlank_nil hhead
    obtain ⟨e, more, hcons⟩ := List.exists_cons_of_ne_nil hname
    rw [hcons] at hsplit
    obtain rfl : c = e := (List.cons.inj hsplit).1
    rcases h with hdot | ⟨k, -, hnamek, -⟩
    · obtain rfl : c = '.' := by simpa using hdot
      cases hplain '.' (by simp [hcons])
    · rw [hcons, List.cons_append] at hnamek
      rw [(List.cons.inj hnamek).1, hd] at hc
      cases hc

/-- A text and the same text with more than blanks before it do not begin with the same comparison.
What stands behind them does not matter. -/
theorem not_beginsWith_both {x : Comparison} {a tail w v : List Char} {d : Char} (ha : AllBlank a)
    (hd : isBlank d = false) (htail : AllWhitespace (d :: tail)) (hne : w ≠ [])
    (hw : ∀ c ∈ w.head?, isWhitespace c = false)
    (h : BeginsWith x (a ++ d :: tail ++ w ++ v)) :
    ¬ BeginsWith x w ∧ ∀ t, ¬ DerivesMark '(' w t := by
  obtain ⟨c, w, rfl⟩ := List.exists_cons_of_ne_nil hne
  have hc : isWhitespace c = false := hw c rfl
  have hspace : isWhitespace d = true := htail d List.mem_cons_self
  have htext : a ++ d :: tail ++ c :: w ++ v = a ++ d :: (tail ++ (c :: w ++ v)) := by simp
  rw [htext] at h
  obtain ⟨name, u, b, hscope, hname, hplain, hu, hsplit⟩ := source_of_beginsWith ha hd hspace h
  have hgoes := source_goes_on htail hu (r := c :: w ++ v) (by simpa using hc) hsplit
  constructor
  · intro hbegins
    cases hbegins with
    | identity hscope' _ =>
      rw [hscope'] at hscope
      cases hscope
    | source hscope' hsource _ =>
      obtain rfl := Option.some.inj (hscope.symm.trans hscope')
      exact not_derivesToken_of_goes_on hname hplain hu hspace hc hgoes hsource
  · intro t hopen
    have hblank := not_isBlank_of_not_isWhitespace hc
    obtain rfl := hopen.of_first (a := []) allBlank_nil hblank rfl
    rcases hgoes with hdot | ⟨k, hk, hnamek, hrest⟩
    · cases hdot
    · obtain ⟨e, k, rfl⟩ := List.exists_cons_of_ne_nil hk
      obtain rfl : '(' = e := (List.cons.inj hrest).1
      cases hplain '(' (by simp [hnamek])

end Eligibility
