import Eligibility.Proofs.ErrorPlaces
import Eligibility.Proofs.Passes

/-!
# Progress

Reading ends because every pass moves on: one over a level, and one over a list of values, either
is the last or leaves the cursor behind at least one more character of the text, though tokens and
list elements may be empty. What is in a group is shorter than the text the group is cut out of by
the two parentheses at least.

So there is a bound on the passes and on the depth of groups that depends on the length of the text
only. `Expression.parseWithin` reads within such bounds and gives up where they are used up; with
those of `Expression.parse_progresses` this never happens, and it reads what `Expression.parse`
does.
-/

namespace Eligibility

/-! ## Cursors further on -/

namespace Cursor

/-- The second cursor stands in the text of the first, behind a stretch of it. -/
def Leads (c next : Cursor) : Prop :=
  ∃ w, c.rest = w ++ next.rest ∧ next.offset = c.offset + byteLength w

/-- The second cursor stands in the text of the first, behind at least one character of it. -/
def Precedes (c next : Cursor) : Prop :=
  ∃ w, w ≠ [] ∧ c.rest = w ++ next.rest ∧ next.offset = c.offset + byteLength w

variable {c next last : Cursor}

theorem Leads.refl (c : Cursor) : c.Leads c := ⟨[], rfl, rfl⟩

theorem Leads.trans (h : c.Leads next) (h' : next.Leads last) : c.Leads last := by
  obtain ⟨w, hrest, hoffset⟩ := h
  obtain ⟨w', hrest', hoffset'⟩ := h'
  refine ⟨w ++ w', ?_, ?_⟩
  · rw [hrest, hrest', List.append_assoc]
  · rw [hoffset', hoffset, byteLength_append, Nat.add_assoc]

theorem leads_skipWhile (c : Cursor) (p : Char → Bool) : c.Leads (c.skipWhile p) :=
  ⟨c.rest.takeWhile p, List.takeWhile_append_dropWhile.symm, rfl⟩

theorem leads_skipBlanks (c : Cursor) : c.Leads c.skipBlanks := c.leads_skipWhile isBlank

theorem leads_advance (c : Cursor) : c.Leads c.advance := by
  obtain ⟨rest, offset⟩ := c
  cases rest with
  | nil => exact .refl _
  | cons d rest => exact ⟨[d], rfl, by simp⟩

/-- Less text is left only behind a character. -/
theorem Leads.precedes (h : c.Leads next) (hlength : next.rest.length < c.rest.length) :
    c.Precedes next := by
  obtain ⟨w, hrest, hoffset⟩ := h
  refine ⟨w, ?_, hrest, hoffset⟩
  rintro rfl
  simp [hrest] at hlength

theorem Precedes.byteLength_lt (h : c.Precedes next) :
    byteLength next.rest < byteLength c.rest := by
  obtain ⟨w, hne, hrest, -⟩ := h
  obtain ⟨d, w, rfl⟩ := List.exists_cons_of_ne_nil hne
  have hpos := d.utf8Size_pos
  rw [hrest, byteLength_append, byteLength_cons]
  omega

theorem byteLength_replicate (n : Nat) : byteLength (List.replicate n 'a') = n := by
  induction n with
  | zero => rfl
  | succ n ih =>
    have hsize : 'a'.utf8Size = 1 := rfl
    rw [List.replicate_succ, byteLength_cons, ih, hsize, Nat.add_comm]

/-- A cursor that stays in every text in which it can stand has only moved on. -/
theorem leads_of_in (h : ∀ text, c.In text [] → next.In text [])
    (hlength : next.rest.length ≤ c.rest.length) : c.Leads next := by
  -- any text will do in which there is something as long as the offset before the cursor
  have hc : c.In (List.replicate c.offset 'a' ++ c.rest) [] :=
    ⟨List.replicate c.offset 'a', by rw [List.append_nil], byteLength_replicate c.offset⟩
  obtain ⟨before, htext, hbefore⟩ := h _ hc
  rw [List.append_nil] at htext
  rcases List.append_eq_append_iff.1 htext with ⟨w, rfl, hrest⟩ | ⟨w, hreplicate, hrest⟩
  · exact ⟨w, hrest, by rw [← hbefore, byteLength_append, byteLength_replicate]⟩
  · obtain rfl : w = [] := by
      rw [hrest, List.length_append] at hlength
      exact List.eq_nil_of_length_eq_zero (by omega)
    rw [List.append_nil] at hreplicate
    exact ⟨[], hrest.symm, by rw [← hbefore, ← hreplicate, byteLength_replicate]; rfl⟩

end Cursor

/-! ## Passes over a list of values -/

namespace Scan

variable {opening : Nat} {first : Bool} {c next : Cursor}

theorem leads_readValue {value : String} (h : readValue opening first c = .ok value next) :
    c.Leads next := by
  unfold readValue at h
  dsimp only at h
  split at h
  · cases h
  · rename_i d hd
    split at h
    · cases h
    · split at h
      · obtain ⟨rest, hskip⟩ : ∃ rest, c.skipBlanks = ⟨d :: rest, c.skipBlanks.offset⟩ :=
          ⟨_, congrArg (Cursor.mk · c.skipBlanks.offset) (Cursor.rest_eq_cons hd)⟩
        refine c.leads_skipBlanks.trans ?_
        rw [hskip] at h
        obtain ⟨inner, after, htail, -, -, rfl⟩ := readQuoted_eq_ok h
        exact ⟨d :: doubled d inner ++ [d], by rw [hskip, htail]; simp, rfl⟩
      · obtain ⟨text, htake, -⟩ := map_eq_ok.1 h
        cases htake
        exact c.leads_skipBlanks.trans (Cursor.leads_skipWhile _ _)

theorem leads_readAfterValue {after : AfterValue} (h : readAfterValue opening c = .ok after next) :
    c.Leads next := by
  have hadvance := c.leads_skipBlanks.trans c.skipBlanks.leads_advance
  unfold readAfterValue at h
  dsimp only at h
  split at h
  · cases h
  · split at h
    · cases h
      exact hadvance
    · split at h
      · cases h
        exact hadvance
      · cases h

/-- A pass over a list of values moves on. -/
theorem precedes_readElement {x : String × AfterValue}
    (h : readElement opening first c = .ok x next) : c.Precedes next := by
  have hlength := advances_readElement opening first c x next h
  obtain ⟨value, mid, hvalue, h⟩ := bind_eq_ok.1 h
  obtain ⟨after, stop, hafter, h⟩ := bind_eq_ok.1 h
  cases h
  exact ((leads_readValue hvalue).trans (leads_readAfterValue hafter)).precedes hlength

/-- Reads elements of a list of values in so many passes at most, else nothing is given. -/
def readElementsWithin (opening : Nat) :
    Nat → List String → Cursor → Option (EStateM.Result ParseError Cursor (List String))
  | 0, _, _ => none
  | passes + 1, values, c =>
    match readElement opening values.isEmpty c with
    | .error e stopped => some (.error e stopped)
    | .ok (value, .closing) next => some (.ok (values ++ [value]) next)
    | .ok (value, .comma) next => readElementsWithin opening passes (values ++ [value]) next

theorem readElementsWithin_eq {passes : Nat} {values : List String}
    (h : byteLength c.rest < passes) :
    readElementsWithin opening passes values c = some (readElements opening values c) := by
  induction passes generalizing values c with
  | zero => exact absurd h (Nat.not_lt_zero _)
  | succ passes ih =>
    unfold readElementsWithin
    cases hread : readElement opening values.isEmpty c with
    | error e stopped => rw [readElements_error hread]
    | ok x next =>
      obtain ⟨value, after⟩ := x
      cases after with
      | closing => rw [readElements_closing hread]
      | comma =>
        have hlt := (precedes_readElement hread).byteLength_lt
        rw [readElements_comma hread]
        exact ih (by omega)

end Scan

/-! ## Passes over a level -/

namespace Level

variable {level : Level} {c : Cursor}

/-- Whether a pass that began here is the last one or has moved on, and a group that it has cut out
is shorter than the text by two bytes at least. -/
def Pass.Progresses (c : Cursor) : Pass → Prop
  | .ended _ | .failed _ => True
  | .read _ _ next => c.Precedes next
  | .group inside next => c.Precedes next ∧ byteLength inside.rest + 2 ≤ byteLength c.rest

/-- A scan that moves on, and stays in every text in which it begins, leads further on. -/
theorem precedes_of_points {α : Type} {x : Scan α} {P : List Char → α → Prop} {a : α}
    {next : Cursor} (hx : Scan.Advances x) (hpoints : ∀ text, Scan.Points text [] x (P text))
    (h : x c.skipBlanks = .ok a next) : c.Precedes next := by
  have hlength := hx _ _ _ h
  have hleads : c.skipBlanks.Leads next := by
    refine Cursor.leads_of_in (fun text hin => ?_) (Nat.le_of_lt hlength)
    have hlands := hpoints text c.skipBlanks hin
    rw [h] at hlands
    exact hlands.2
  exact (c.leads_skipBlanks.trans hleads).precedes
    (Nat.lt_of_lt_of_le hlength c.length_skipBlanks_le)

theorem precedes_readOperand {operand : Scan.Operand} {next : Cursor}
    (h : Scan.readOperand c.skipBlanks = .ok operand next) : c.Precedes next :=
  precedes_of_points Scan.advances_readOperand (fun _ => Scan.points_readOperand closesGroup_nil) h

theorem precedes_readConnective {p : Connective × Token} {next : Cursor}
    (h : Scan.readConnective c.skipBlanks = .ok p next) : c.Precedes next :=
  precedes_of_points Scan.advances_readConnective
    (fun _ => Scan.points_readConnective closesGroup_nil) h

/-- The inside of a group stands between its two parentheses. -/
theorem byteLength_inside_le {inside next : Cursor}
    (h : Scan.readOperand c.skipBlanks = .ok (.group inside) next) :
    byteLength inside.rest + 2 ≤ byteLength c.rest := by
  have hsizes : '('.utf8Size = 1 ∧ ')'.utf8Size = 1 := ⟨rfl, rfl⟩
  have hopen := Scan.derivesMark_of_readOperand h
  generalize hrest : c.rest = text at hopen
  cases hopen with
  | mk hblank =>
    simp only [byteLength_append, byteLength_cons, hsizes.1, hsizes.2]
    omega

theorem progresses_pass (level : Level) (c : Cursor) : (level.pass c).Progresses c := by
  generalize hpass : level.pass c = outcome
  cases passed_of_pass hpass with
  | ended | noOperand | noConnective | refused => trivial
  | comparison _ _ hread => exact precedes_readOperand hread
  | group _ _ hread => exact ⟨precedes_readOperand hread, byteLength_inside_le hread⟩
  | connective _ _ hread => exact precedes_readConnective hread

/-- What holds wherever it holds of the places that a pass leads to holds everywhere: of the place
where the next pass begins, and of the inside of a group. -/
theorem pass_induction {P : Level → Cursor → Prop}
    (step : ∀ level c,
      (∀ part level' next, level.pass c = .read part level' next → P level' next) →
      (∀ inside next, level.pass c = .group inside next →
        P start inside ∧ ∀ e, P (level.push e) next) → P level c) (level : Level) (c : Cursor) :
    P level c := by
  -- on the number of bytes that are left
  generalize hbytes : byteLength c.rest = bytes
  induction bytes using Nat.strongRecOn generalizing level c with
  | ind bytes ih =>
    have hprogress := progresses_pass level c
    refine step level c (fun part level' next hpass => ?_) fun inside next hpass => ?_
    · rw [hpass] at hprogress
      have hlt := Cursor.Precedes.byteLength_lt hprogress
      exact ih _ (by omega) level' next rfl
    · rw [hpass] at hprogress
      obtain ⟨hnext, hinside⟩ := hprogress
      have hlt := hnext.byteLength_lt
      exact ⟨ih _ (by omega) start inside rfl, fun e => ih _ (by omega) (level.push e) next rfl⟩

/-- Reads the rest of a level in so many passes at most, and its groups as given. Nothing is given
if either comes to no end. -/
def parseWithin (inner : Cursor → Option (Except ParseError Expression)) :
    Nat → Level → Cursor → Option (Except ParseError Expression)
  | 0, _, _ => none
  | passes + 1, level, c =>
    match level.pass c with
    | .ended result => some result
    | .failed e => some (.error e)
    | .read _ level next => parseWithin inner passes level next
    | .group inside next =>
      match inner inside with
      | none => none
      | some (.error e) => some (.error e)
      | some (.ok e) => parseWithin inner passes (level.push e) next

/-- More passes than there are bytes are enough, if all shorter groups are read. -/
theorem parseWithin_eq {inner : Cursor → Option (Except ParseError Expression)} {bytes passes : Nat}
    (hinner : ∀ inside : Cursor, byteLength inside.rest + 2 ≤ bytes →
      inner inside = some (start.parse inside))
    (hpasses : byteLength c.rest < passes) (hbytes : byteLength c.rest ≤ bytes) :
    parseWithin inner passes level c = some (level.parse c) := by
  induction passes generalizing level c with
  | zero => exact absurd hpasses (Nat.not_lt_zero _)
  | succ passes ih =>
    have hprogress := progresses_pass level c
    rw [parse_eq]
    unfold parseWithin
    cases hpass : level.pass c with
    | ended result => rfl
    | failed e => rfl
    | read part level' next =>
      rw [hpass] at hprogress
      have hlt := Cursor.Precedes.byteLength_lt hprogress
      exact ih (by omega) (by omega)
    | group inside next =>
      rw [hpass] at hprogress
      obtain ⟨hnext, hinside⟩ := hprogress
      have hlt := hnext.byteLength_lt
      simp only [hinner inside (by omega)]
      cases start.parse inside with
      | error e => rfl
      | ok e => exact ih (by omega) (by omega)

end Level

namespace Expression

/-- Reads a rule text with groups down to so many levels at most, and each level in one pass more
than its text has bytes. Nothing is given if this is not enough. -/
def parseWithin : Nat → Cursor → Option (Except ParseError Expression)
  | 0, _ => none
  | levels + 1, c => Level.start.parseWithin (parseWithin levels) (byteLength c.rest + 1) c

theorem parseWithin_eq {levels : Nat} {c : Cursor} (h : byteLength c.rest / 2 < levels) :
    parseWithin levels c = some (parseAt c) := by
  induction levels generalizing c with
  | zero => exact absurd h (Nat.not_lt_zero _)
  | succ levels ih =>
    refine Level.parseWithin_eq (fun inside hinside => ?_) (Nat.lt_succ_self _) (Nat.le_refl _)
    exact ih (by omega)

/-- Every pass over a level and over a list of values is the last one or moves on, and the inside of
a group is shorter by two bytes than the text it is cut out of. So a list of values is read in one
pass more than the text has bytes, and so is each level of a text, and there is at most one level
more than half of the bytes. -/
theorem parse_progresses :
    (∀ (level : Level) (c : Cursor), (level.pass c).Progresses c) ∧
      (∀ opening first c value next,
        Scan.readElement opening first c = .ok (value, .comma) next → c.Precedes next) ∧
      (∀ c : Cursor, Scan.readElementsWithin c.offset (byteLength c.rest + 1) [] c.advance =
        some (Scan.readValueList c)) ∧
      ∀ text : String, parseWithin (byteLength text.toList / 2 + 1) (Cursor.ofString text) =
        some (parse text) := by
  refine ⟨Level.progresses_pass, fun _ _ _ _ _ => Scan.precedes_readElement, fun c => ?_,
    fun text => parseWithin_eq (Nat.lt_succ_self _)⟩
  refine Scan.readElementsWithin_eq (Nat.lt_succ_of_le ?_)
  obtain ⟨w, hrest, -⟩ := c.leads_advance
  rw [hrest, byteLength_append]
  exact Nat.le_add_left _ _

/-- An element of a list with blanks around it, and a list with an empty element in two groups. -/
theorem parse_progresses_nested :
    Scan.readElement 14 true ⟨" x , (,)".toList, 15⟩ = .ok ("x", .comma) ⟨" (,)".toList, 19⟩ ∧
      Cursor.Precedes ⟨" x , (,)".toList, 15⟩ ⟨" (,)".toList, 19⟩ ∧
      parseWithin 12 (Cursor.ofString "((identity.a in (x,)))") =
        some (parse "((identity.a in (x,)))") := by
  have hread : Scan.readElement 14 true ⟨" x , (,)".toList, 15⟩ =
      .ok ("x", .comma) ⟨" (,)".toList, 19⟩ := by rfl
  exact ⟨hread, parse_progresses.2.1 _ _ _ _ _ hread, parse_progresses.2.2.2 _⟩

end Expression

end Eligibility
