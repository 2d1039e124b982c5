import Eligibility.Proofs.FirstSymbols
import Eligibility.Proofs.TrailingBlanks

/-!
# The two ends of a text

The parser knows four blanks, and trimming removes all whitespace. Blanks at the two ends of a text
make no difference to its reading. Any other whitespace is a character of a token to the parser: at
the start of a text it begins the name of a source, and at the end it ends a single value without
quotes. So a text and its trim are read alike exactly if trimming removes nothing but blanks, or if
neither of the two is read (`Expression.parse_trim_iff`).
-/

namespace Eligibility

/-- Trimming takes nothing but blanks away from the ends of the text. -/
def TrimsBlanks (text : String) : Prop :=
  ∃ u v, AllBlank u ∧ AllBlank v ∧ text.toList = u ++ (trim text).toList ++ v

theorem exists_trim (text : String) :
    ∃ u v, AllWhitespace u ∧ AllWhitespace v ∧ text.toList = u ++ (trim text).toList ++ v := by
  simpa [trim] using exists_trimmed text.toList

theorem head_trim {text : String} : ∀ c ∈ (trim text).toList.head?, isWhitespace c = false := by
  intro c hc
  rw [trim, String.toList_ofList] at hc
  exact head_trimmed hc

theorem getLast_trim {text : String} :
    ∀ c ∈ (trim text).toList.getLast?, isWhitespace c = false := by
  intro c hc
  rw [trim, String.toList_ofList] at hc
  exact getLast_trimmed hc

namespace Expression

variable {text : String} {e : Expression}

/-- Blanks at the ends of a text make no difference to its reading. -/
theorem parse_blanks_iff {text' : String} {u v : List Char} (hu : AllBlank u) (hv : AllBlank v)
    (htext : text.toList = u ++ text'.toList ++ v) :
    parse text = .ok e ↔ parse text' = .ok e := by
  unfold parse parseAt Cursor.ofString
  rw [htext, List.append_assoc, Level.parse_blanks hu, Level.parse_offset]
  exact Level.parse_moved_blanks hv Level.start ⟨text'.toList, 0⟩ e

theorem toList_ne_nil_of_parse (h : parse text = .ok e) : text.toList ≠ [] := by
  intro hnil
  have hempty : Level.start.parse ⟨[], 0⟩ = .error .emptyExpression :=
    Level.parse_allBlank allBlank_nil 0
  unfold parse parseAt Cursor.ofString at h
  rw [hnil, hempty] at h
  cases h

theorem exists_derivesLevel (h : parse text = .ok e) :
    ∃ t, AllBlank t ∧ DerivesLevel e text.toList t :=
  Level.derivesLevel_of_parse h

/-- The last comparison is different if the text ends in more than blanks and its trim is read. -/
theorem parse_trim_ne_of_end {y v : List Char} (hv : AllWhitespace v) (hv' : ¬ AllBlank v)
    (htext : text.toList = y ++ (trim text).toList ++ v) (h : parse text = .ok e) :
    parse (trim text) ≠ .ok e := by
  intro htrim
  have hne := toList_ne_nil_of_parse htrim
  obtain ⟨t, ht, hlevel⟩ := exists_derivesLevel h
  obtain ⟨t', ht', hlevel'⟩ := exists_derivesLevel htrim
  obtain ⟨x, hx, hends⟩ := endsWith_of_derivesLevel hlevel
  obtain ⟨x', hx', hends'⟩ := endsWith_of_derivesLevel hlevel'
  obtain rfl : x = x' := Option.some.inj (hx.symm.trans hx')
  -- nothing is left behind the last symbol of the trim
  obtain rfl : t' = [] := by
    by_contra hnil
    refine not_suffix_of_whitespace hnil ?_ getLast_trim hends'.suffix
    exact fun c hc => Scan.isWhitespace_of_isBlank (ht' c (List.mem_of_getLast? hc))
  have hlast : ∀ c ∈ (y ++ (trim text).toList).getLast?, isWhitespace c = false := by
    rw [List.getLast?_append_of_ne_nil _ hne]
    exact getLast_trim
  rw [htext] at hends
  exact not_endsWith_both hlast hv hv' ht hends (hends'.mono (List.suffix_append y _))

/-- The first comparison is different if the text begins with more than blanks and its trim is
read. -/
theorem parse_trim_ne_of_start {u v : List Char} (hu : AllWhitespace u) (hu' : ¬ AllBlank u)
    (htext : text.toList = u ++ (trim text).toList ++ v) (h : parse text = .ok e) :
    parse (trim text) ≠ .ok e := by
  intro htrim
  have hne := toList_ne_nil_of_parse htrim
  obtain ⟨a, d, tail, rfl, ha, hd⟩ := exists_first_not_blank hu'
  have htail : AllWhitespace (d :: tail) := fun c hc => hu c (List.mem_append_right a hc)
  obtain ⟨t, -, hlevel⟩ := exists_derivesLevel h
  obtain ⟨t', -, hlevel'⟩ := exists_derivesLevel htrim
  rw [htext] at hlevel
  rcases beginsWith_of_derivesLevel hlevel with ⟨s, hopen⟩ | ⟨x, hx, hbegins⟩
  · rw [List.append_assoc, List.append_assoc] at hopen
    obtain rfl := hopen.of_first ha hd rfl
    cases htail '(' List.mem_cons_self
  · obtain ⟨hnot, hopen'⟩ := not_beginsWith_both ha hd htail hne head_trim hbegins
    rcases beginsWith_of_derivesLevel hlevel' with ⟨s, hopen⟩ | ⟨x', hx', hbegins'⟩
    · exact hopen' s hopen
    · obtain rfl : x = x' := Option.some.inj (hx.symm.trans hx')
      exact hnot hbegins'

/-- A text and its trim are read as the same expression exactly if trimming takes nothing but blanks
away; otherwise at most one of the two is read as a given expression. -/
theorem parse_trim_iff (text : String) (e : Expression) :
    (parse text = .ok e ↔ parse (trim text) = .ok e) ↔
      TrimsBlanks text ∨ (parse text ≠ .ok e ∧ parse (trim text) ≠ .ok e) := by
  constructor
  · intro hiff
    by_cases htrim : parse (trim text) = .ok e
    · refine .inl ?_
      by_contra hblanks
      obtain ⟨u, v, hu, hv, htext⟩ := exists_trim text
      by_cases hu' : AllBlank u
      · have hv' : ¬ AllBlank v := fun hv' => hblanks ⟨u, v, hu', hv', htext⟩
        exact parse_trim_ne_of_end hv hv' htext (hiff.2 htrim) htrim
      · exact parse_trim_ne_of_start hu hu' htext (hiff.2 htrim) htrim
    · exact .inr ⟨fun h => htrim (hiff.1 h), htrim⟩
  · rintro (⟨u, v, hu, hv, htext⟩ | ⟨htext, htrim⟩)
    · exact parse_blanks_iff hu hv htext
    · exact iff_of_false htext htrim

/-- A no-break space before the name of a source is a part of the name, and trimming removes it. -/
theorem parse_trim_noBreakSpace :
    ¬ (parse "\u00a0HR.attribute.x eq 1" =
        .ok (.comparison ⟨.equal, ⟨.account "HR", "x"⟩, .single "1"⟩) ↔
      parse (trim "\u00a0HR.attribute.x eq 1") =
        .ok (.comparison ⟨.equal, ⟨.account "HR", "x"⟩, .single "1"⟩)) := by
  decide +kernel

end Expression

end Eligibility
