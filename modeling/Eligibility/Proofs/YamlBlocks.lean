import Eligibility.Proofs.YamlScalars
import Eligibility.Yaml.Block

/-!
# YAML blocks are read back

A text that is written as a literal block is read as the text. The lines of the block are read one
after the other, each with the empty lines before it; the breaks at the end of the text, and what
the header says about them, are settled last.
-/

namespace Eligibility.Yaml

variable {text rest tail stop : List Char} {c : Char}

/-! ## Empty lines -/

namespace EmptyLines

/-- A line that is indented by as many blanks as its block. -/
theorem read_indented (h : isBreak c = false) (rest : List Char) :
    read (some 4) 0 (indentation ++ c :: rest) = some ⟨[], 4, 4, c :: rest⟩ := by
  simp [read, indentation, h]

/-- The first line of a block shows the indentation unless it starts with a blank. -/
theorem read_first (hbreak : isBreak c = false) (hblank : isBlank c = false) (rest : List Char) :
    read none 0 (indentation ++ c :: rest) = some ⟨[], 4, 4, c :: rest⟩ := by
  simp only [isBlank, Bool.or_eq_false_iff, beq_eq_false_iff_ne] at hblank
  simp [read, indentation, hbreak, hblank]

theorem read_break (h : isBreak c = true) (rest : List Char) :
    read (some 4) 0 (c :: rest) = (read (some 4) 0 rest).map (after c 0) := by
  have hblank : c ≠ ' ' := by
    rintro rfl
    cases h
  have htab : c ≠ '\t' := by
    rintro rfl
    cases h
  rw [read]
  simp [hblank, htab, h]

theorem read_breaks {breaks : List Char} (hbreaks : ∀ c ∈ breaks, isBreak c = true)
    {lines : EmptyLines} (h : read (some 4) 0 text = some lines) :
    read (some 4) 0 (breaks ++ text) = some { lines with breaks := breaks ++ lines.breaks } := by
  induction breaks with
  | nil => exact h
  | cons c breaks ih =>
    rw [List.cons_append, read_break (hbreaks c List.mem_cons_self),
      ih fun d hd => hbreaks d (List.mem_cons_of_mem c hd)]
    simp [after]

/-- A line of a block, with the empty lines before it. -/
theorem read_line {breaks : List Char} (hbreaks : ∀ d ∈ breaks, isBreak d = true)
    (hc : isBreak c = false) (rest : List Char) :
    read (some 4) 0 (breaks ++ (indentation ++ c :: rest)) = some ⟨breaks, 4, 4, c :: rest⟩ := by
  rw [read_breaks hbreaks (read_indented hc rest), List.append_nil]

/-- The next line is not indented like the block. -/
theorem read_follows (h : Follows tail stop) :
    ∃ column, read (some 4) 0 tail = some ⟨[], column, column, stop⟩ ∧ (stop = [] ∨ column ≠ 4) := by
  cases h with
  | nothing => exact ⟨0, rfl, .inl rfl⟩
  | @line d more hspacing _ =>
    simp only [isSpacing, isBlank, Bool.or_eq_false_iff, beq_eq_false_iff_ne] at hspacing
    refine ⟨2, ?_, .inr (by decide)⟩
    simp [read, hspacing]

end EmptyLines

/-! ## Lines -/

theorem literalText_breaks {breaks : List Char} (hbreaks : ∀ c ∈ breaks, isBreak c = true)
    (text : List Char) : literalText true (breaks ++ text) = breaks ++ literalText true text := by
  induction breaks with
  | nil => rfl
  | cons c breaks ih =>
    rw [List.cons_append, literalText, if_pos (hbreaks c List.mem_cons_self),
      ih fun d hd => hbreaks d (List.mem_cons_of_mem c hd)]
    rfl

theorem literalText_lineStart (h : isBreak c = false) (text : List Char) :
    literalText true (c :: text) = indentation ++ c :: literalText false text := by
  rw [literalText, if_neg (by simp [h]), if_pos rfl]

theorem literalText_line {line : List Char} (hline : ∀ c ∈ line, isBreak c = false)
    (text : List Char) : literalText false (line ++ text) = line ++ literalText false text := by
  induction line with
  | nil => rfl
  | cons c line ih =>
    rw [List.cons_append, literalText, if_neg (by simp [hline c List.mem_cons_self]),
      if_neg (by decide), ih fun d hd => hline d (List.mem_cons_of_mem c hd)]
    rfl

theorem literalText_lineEnd (h : isBreak c = true) (text : List Char) :
    literalText false (c :: text) = c :: literalText true text := by
  rw [literalText, if_pos h]

/-- A block that ends before the given lines. -/
theorem readLines_stop {column widest : Nat} {breaks : List Char} (before : LineBefore)
    (h : stop = [] ∨ column ≠ 4) :
    readLines false 4 before ⟨breaks, column, widest, stop⟩ =
      some ⟨[], before.ending, breaks, stop⟩ := by
  rw [readLines]
  cases stop with
  | nil => rfl
  | cons d more =>
    have hcolumn : column ≠ 4 := h.resolve_left (List.cons_ne_nil d more)
    simp [hcolumn]

/-- One line of a block, with the empty lines before it. -/
theorem readLines_line {widest : Nat} {breaks line following : List Char} {ending : Char}
    {before : LineBefore} {next : EmptyLines} {b : Block}
    (hline : ∀ d ∈ line, isBreak d = false) (hending : isBreak ending = true)
    (hnext : EmptyLines.read (some 4) 0 following = some next)
    (hb : readLines false 4 ⟨some ending, isBlank c⟩ next = some b) :
    readLines false 4 before ⟨breaks, 4, widest, c :: (line ++ ending :: following)⟩ =
      some { b with text := before.ending.toList ++ breaks ++ c :: line ++ b.text } := by
  have hinLine : ∀ d ∈ line, (!isBreak d) = true := by simpa using hline
  have hstop : ∀ d ∈ (ending :: following).head?, (!isBreak d) = false := by simpa using hending
  have htake : (line ++ ending :: following).takeWhile (fun d => !isBreak d) = line :=
    takeWhile_stretch hinLine hstop
  have hdrop : (line ++ ending :: following).dropWhile (fun d => !isBreak d) =
      ending :: following :=
    dropWhile_stretch hinLine hstop
  rw [readLines]
  simp only [ne_eq, not_true_eq_false, if_false]
  split
  · rename_i hnil
    rw [hdrop] at hnil
    cases hnil
  · rename_i heq
    rw [hdrop] at heq
    cases heq
    split
    · rename_i hnone
      rw [hnext] at hnone
      cases hnone
    · rename_i hsome
      rw [hnext] at hsome
      cases hsome
      rw [hb, htake]
      rfl

/-! ## The content of a block -/

/-- The line feed that is written behind a text whose last line does not end. -/
def lastFeed (text : List Char) : List Char :=
  match text.getLast? with
  | none => []
  | some c => if isBreak c then [] else ['\n']

theorem lastFeed_append (a : List Char) (h : text ≠ []) : lastFeed (a ++ text) = lastFeed text := by
  rw [lastFeed, lastFeed, List.getLast?_append, List.getLast?_eq_some_getLast h]
  rfl

theorem lastFeed_lineEnd (h : isBreak c = true) (text : List Char) :
    lastFeed (c :: text) = lastFeed text := by
  cases text with
  | nil => simp [lastFeed, h]
  | cons d text => exact lastFeed_append [c] (List.cons_ne_nil d text)

theorem lastFeed_following (a b : List Char) (h : isBreak c = true) (text : List Char) :
    lastFeed (a ++ (b ++ c :: text)) = lastFeed text := by
  rw [← List.append_assoc, lastFeed_append _ (List.cons_ne_nil c text), lastFeed_lineEnd h]

theorem lastFeed_line (h : ∀ d ∈ text, isBreak d = false) (hne : text ≠ []) :
    lastFeed text = ['\n'] := by
  have hlast := h _ (List.getLast_mem hne)
  simp [lastFeed, List.getLast?_eq_some_getLast hne, hlast]

theorem lastFeed_breaks (h : ∀ d ∈ text, isBreak d = true) : lastFeed text = [] := by
  cases htext : text.getLast? with
  | none => simp [lastFeed, htext]
  | some c => simp [lastFeed, htext, h c (List.mem_of_getLast? htext)]

theorem getLast?_literalText (atStart : Bool) (text : List Char) :
    (literalText atStart text).getLast? = text.getLast? := by
  induction text generalizing atStart with
  | nil => rfl
  | cons c text ih =>
    rw [literalText]
    split
    · rw [List.getLast?_cons, ih, List.getLast?_cons]
    · rw [List.getLast?_append, List.getLast?_cons, ih, List.getLast?_cons]
      rfl

/-- A literal block ends with its line. -/
theorem exists_lastBreak (hne : text ≠ []) :
    ∃ before c, isBreak c = true ∧ literalText true text ++ lastFeed text = before ++ [c] := by
  have hlast := List.getLast?_eq_some_getLast hne
  by_cases hbreak : isBreak (text.getLast hne) = true
  · have hfeed : lastFeed text = [] := by simp [lastFeed, hlast, hbreak]
    have hlastText := (getLast?_literalText true text).trans hlast
    obtain ⟨before, hbefore⟩ := List.getLast?_eq_some_iff.1 hlastText
    exact ⟨before, _, hbreak, by rw [hfeed, List.append_nil, hbefore]⟩
  · have hfeed : lastFeed text = ['\n'] := by simp [lastFeed, hlast, hbreak]
    exact ⟨_, '\n', rfl, by rw [hfeed]⟩

/-- What a block gives when its lines are read after a line that ends with the given break: the
text, cut before the breaks at its end. -/
structure Gives (before : Option Char) (text : List Char) (b : Block) : Prop where
  content : before.toList ++ text ++ lastFeed text = b.text ++ (b.ending.toList ++ b.breaks)
  breaks : ∀ c ∈ b.ending.toList ++ b.breaks, isBreak c = true
  last : ∀ c ∈ b.text.getLast?, isBreak c = false
  ending : before ≠ none ∨ b.text ≠ [] → b.ending ≠ none

theorem gives_breaks {before : Option Char} {breaks : List Char} (stop : List Char)
    (hbefore : ∀ c ∈ before, isBreak c = true) (hbreaks : ∀ c ∈ breaks, isBreak c = true) :
    Gives before breaks ⟨[], before, breaks, stop⟩ where
  content := by simp [lastFeed_breaks hbreaks]
  breaks := by
    intro c hc
    rcases List.mem_append.1 hc with hc | hc
    · exact hbefore c (Option.mem_toList.1 hc)
    · exact hbreaks c hc
  last := by simp
  ending := by simp

theorem gives_lastLine (before : Option Char) (breaks : List Char) {line : List Char}
    (stop : List Char) (hline : ∀ d ∈ c :: line, isBreak d = false) :
    Gives before (breaks ++ c :: line)
      ⟨before.toList ++ breaks ++ c :: line, some '\n', [], stop⟩ where
  content := by
    rw [lastFeed_append breaks (List.cons_ne_nil c line), lastFeed_line hline (by simp)]
    simp
  breaks := by simp [isBreak]
  last := by
    intro d hd
    rw [List.getLast?_append, List.getLast?_eq_some_getLast (List.cons_ne_nil c line)] at hd
    cases hd
    exact hline _ (List.getLast_mem _)
  ending := by simp

theorem Gives.line {b : Block} {ending : Char} {line : List Char} (h : Gives (some ending) text b)
    (before : Option Char) (breaks : List Char) (hline : ∀ d ∈ c :: line, isBreak d = false)
    (hending : isBreak ending = true) :
    Gives before (breaks ++ c :: (line ++ ending :: text))
      { b with text := before.toList ++ breaks ++ c :: line ++ b.text } where
  content := by
    have hcontent := h.content
    rw [← List.cons_append, lastFeed_following breaks (c :: line) hending]
    simp only [List.append_assoc, List.cons_append, Option.toList_some, List.nil_append] at *
    rw [hcontent]
  breaks := h.breaks
  last := by
    intro d hd
    cases hb : b.text.getLast? with
    | some e =>
      rw [List.getLast?_append, hb] at hd
      cases hd
      exact h.last d hb
    | none =>
      rw [List.getLast?_append, hb, List.getLast?_append,
        List.getLast?_eq_some_getLast (List.cons_ne_nil c line)] at hd
      cases hd
      exact hline _ (List.getLast_mem _)
  ending := fun _ => h.ending (.inl (by simp))

/-- A text is cut at the first character that satisfies a condition. -/
theorem exists_cut (p : Char → Bool) (text : List Char) :
    ∃ before rest, text = before ++ rest ∧ (∀ d ∈ before, p d = false) ∧
      ∀ e ∈ rest.head?, p e = true := by
  obtain ⟨htaken, hstop⟩ := takeWhile_dropWhile (!p ·) text
  exact ⟨text.takeWhile (!p ·), text.dropWhile (!p ·), List.takeWhile_append_dropWhile.symm,
    by simpa using htaken, by simpa using hstop⟩

/-- A text cut into lines, each with the empty lines before it. -/
inductive Lines : List Char → Prop where
  /-- Empty lines only. -/
  | breaks {breaks : List Char} (hbreaks : ∀ d ∈ breaks, isBreak d = true) : Lines breaks
  /-- A line that does not end. -/
  | lastLine {breaks line : List Char} {c : Char} (hbreaks : ∀ d ∈ breaks, isBreak d = true)
      (hline : ∀ d ∈ c :: line, isBreak d = false) : Lines (breaks ++ c :: line)
  /-- A line that ends, and more lines. -/
  | line {breaks line text : List Char} {c ending : Char}
      (hbreaks : ∀ d ∈ breaks, isBreak d = true) (hline : ∀ d ∈ c :: line, isBreak d = false)
      (hending : isBreak ending = true) (more : Lines text) :
    Lines (breaks ++ c :: (line ++ ending :: text))

theorem lines (text : List Char) : Lines text := by
  induction hn : text.length using Nat.strongRecOn generalizing text with
  | _ n ih =>
    subst hn
    obtain ⟨breaks, rest, rfl, hbreaks, hrest⟩ := exists_cut (fun d => !isBreak d) text
    simp only [Bool.not_eq_false', Bool.not_eq_true'] at hbreaks hrest
    cases rest with
    | nil =>
      rw [List.append_nil]
      exact .breaks hbreaks
    | cons c more =>
      obtain ⟨line, following, rfl, hline, hfollowing⟩ := exists_cut isBreak more
      have hcline : ∀ d ∈ c :: line, isBreak d = false := by
        intro d hd
        rcases List.mem_cons.1 hd with rfl | hd
        · exact hrest d rfl
        · exact hline d hd
      cases following with
      | nil =>
        rw [List.append_nil]
        exact .lastLine hbreaks hcline
      | cons ending text =>
        have hshorter : text.length < (breaks ++ c :: (line ++ ending :: text)).length := by
          simp
          omega
        exact .line hbreaks hcline (hfollowing ending rfl) (ih text.length hshorter text rfl)

theorem literalText_lines {breaks line : List Char} (hbreaks : ∀ d ∈ breaks, isBreak d = true)
    (hline : ∀ d ∈ c :: line, isBreak d = false) (text : List Char) :
    literalText true (breaks ++ c :: (line ++ text)) =
      breaks ++ (indentation ++ c :: (line ++ literalText false text)) := by
  have hc := hline c List.mem_cons_self
  have hmore : ∀ d ∈ line, isBreak d = false := fun d hd => hline d (List.mem_cons_of_mem c hd)
  rw [literalText_breaks hbreaks, literalText_lineStart hc, literalText_line hmore]

/-- The lines of a text are read, whatever line comes before them. -/
theorem readLines_literalText (hfollows : Follows tail stop) (htext : Lines text)
    (before : LineBefore) (hbefore : ∀ c ∈ before.ending, isBreak c = true) :
    ∃ lines b, EmptyLines.read (some 4) 0 (literalText true text ++ (lastFeed text ++ tail)) =
        some lines ∧
      readLines false 4 before lines = some b ∧ b.rest = stop ∧ Gives before.ending text b := by
  obtain ⟨column, hread, hcolumn⟩ := EmptyLines.read_follows hfollows
  induction htext generalizing before with
  | @breaks breaks hbreaks =>
    have hwritten : literalText true breaks = breaks := by
      simpa [literalText] using literalText_breaks hbreaks []
    rw [hwritten, lastFeed_breaks hbreaks, List.nil_append]
    refine ⟨_, _, EmptyLines.read_breaks hbreaks hread, readLines_stop before hcolumn, rfl, ?_⟩
    rw [List.append_nil]
    exact gives_breaks stop hbefore hbreaks
  | @lastLine breaks line c hbreaks hline =>
    have hmore : ∀ d ∈ line, isBreak d = false := fun d hd => hline d (List.mem_cons_of_mem c hd)
    have hfeed : lastFeed (breaks ++ c :: line) = ['\n'] := by
      rw [lastFeed_append breaks (List.cons_ne_nil c line),
        lastFeed_line hline (List.cons_ne_nil c line)]
    have hwritten : literalText true (breaks ++ c :: line) = breaks ++ (indentation ++ c :: line) := by
      simpa [literalText] using literalText_lines hbreaks hline []
    have hlines := EmptyLines.read_line hbreaks (hline c List.mem_cons_self) (line ++ '\n' :: tail)
    rw [hwritten, hfeed]
    simp only [List.append_assoc, List.cons_append, List.nil_append]
    exact ⟨_, _, hlines, readLines_line hmore rfl hread (readLines_stop _ hcolumn), rfl,
      by simpa using gives_lastLine before.ending breaks stop hline⟩
  | @line breaks line text c ending hbreaks hline hending _ ih =>
    have hmore : ∀ d ∈ line, isBreak d = false := fun d hd => hline d (List.mem_cons_of_mem c hd)
    obtain ⟨next, b, hnext, hb, hstop, hgives⟩ :=
      ih ⟨some ending, isBlank c⟩ (by simpa using hending)
    have hfeed : lastFeed (breaks ++ c :: (line ++ ending :: text)) = lastFeed text :=
      lastFeed_following breaks (c :: line) hending text
    have hlines := EmptyLines.read_line hbreaks (hline c List.mem_cons_self)
      (line ++ ending :: (literalText true text ++ (lastFeed text ++ tail)))
    rw [literalText_lines hbreaks hline, literalText_lineEnd hending, hfeed]
    simp only [List.append_assoc, List.cons_append]
    exact ⟨_, _, hlines, readLines_line hmore hending hnext hb, hstop,
      hgives.line before.ending breaks hline hending⟩

/-! ## The breaks at the end -/

/-- The part of a text before the breaks at its end is determined. -/
theorem eq_of_append_breaks {a b x y : List Char} (h : a ++ x = b ++ y)
    (ha : ∀ c ∈ a.getLast?, isBreak c = false) (hb : ∀ c ∈ b.getLast?, isBreak c = false)
    (hx : ∀ c ∈ x, isBreak c = true) (hy : ∀ c ∈ y, isBreak c = true) : a = b := by
  have hcut : ∀ {a x : List Char}, (∀ c ∈ a.getLast?, isBreak c = false) →
      (∀ c ∈ x, isBreak c = true) → (a ++ x).reverse.dropWhile isBreak = a.reverse := by
    intro a x ha hx
    have hstop : a.reverse.dropWhile isBreak = a.reverse := by
      cases hrev : a.reverse with
      | nil => rfl
      | cons c rest =>
        have hc : isBreak c = false := ha c (by rw [← List.head?_reverse, hrev]; rfl)
        rw [List.dropWhile_cons_of_neg (by simp [hc])]
    rw [List.reverse_append, List.dropWhile_append_of_pos (by simpa using hx), hstop]
  have hrev : a.reverse = b.reverse := by rw [← hcut ha hx, ← hcut hb hy, h]
  exact List.reverse_inj.1 hrev

theorem exists_concat (hne : text ≠ []) : ∃ before last, text = before ++ [last] :=
  ⟨text.dropLast, text.getLast hne, (List.dropLast_concat_getLast hne).symm⟩

/-- What a block stands for. -/
def Block.chomped (b : Block) : Chomping → List Char
  | .strip => b.text
  | .clip => b.text ++ b.ending.toList
  | .keep => b.text ++ b.ending.toList ++ b.breaks

/-- What the header says about the breaks at the end of a text. -/
inductive Chomps (text : List Char) : List Char → Chomping → Prop where
  /-- The last line does not end. -/
  | strip (h : ∀ c ∈ text.getLast?, isBreak c = false) (hne : text ≠ []) : Chomps text ['-'] .strip
  /-- The last line ends, and there is no empty line. -/
  | clip {before : List Char} {c : Char} (h : ∀ d ∈ before.getLast?, isBreak d = false)
      (hne : before ≠ []) (hc : isBreak c = true) (htext : text = before ++ [c]) :
    Chomps text [] .clip
  /-- There are empty lines at the end. -/
  | keep (h : lastFeed text = []) : Chomps text ['+'] .keep

/-- The mark before the lines of a text that do not show its indentation. -/
def indentationHint (text : List Char) : List Char :=
  if text.head?.any fun c => c == ' ' || isBreak c then ['2'] else []

theorem exists_chomps (hne : text ≠ []) :
    ∃ hint chomping, literalHints text = indentationHint text ++ hint ∧
      Chomps text hint chomping := by
  obtain ⟨before, last, rfl⟩ := exists_concat hne
  have hhints : literalHints (before ++ [last]) = indentationHint (before ++ [last]) ++
      if !isBreak last then ['-'] else if before.getLast?.all isBreak then ['+'] else [] := by
    rw [literalHints, List.reverse_append, ← List.head?_reverse]
    rfl
  rw [hhints]
  by_cases hlast : isBreak last = true
  · by_cases hbefore : before.getLast?.all isBreak = true
    · refine ⟨['+'], .keep, by simp [hlast, hbefore], .keep ?_⟩
      simp [lastFeed, hlast]
    · refine ⟨[], .clip, by simp [hlast, hbefore], .clip ?_ ?_ hlast rfl⟩
      · intro d hd
        rw [Option.mem_def.1 hd] at hbefore
        simpa using hbefore
      · rintro rfl
        exact hbefore rfl
  · refine ⟨['-'], .strip, by simp [hlast], .strip ?_ hne⟩
    simpa using hlast

/-- A block that was read, cut as the header of a text says, is the text. -/
theorem Gives.chomped {b : Block} {hint : List Char} {chomping : Chomping} (h : Gives none text b)
    (hchomps : Chomps text hint chomping) : b.chomped chomping = text := by
  have hcontent := h.content
  rw [Option.toList_none, List.nil_append] at hcontent
  cases hchomps with
  | strip hlast hne =>
    have hfeed : ∀ c ∈ lastFeed text, isBreak c = true := by
      unfold lastFeed
      split
      · simp
      · split <;> simp [isBreak]
    exact (eq_of_append_breaks hcontent hlast h.last hfeed h.breaks).symm
  | @clip before c hlast hne hc htext =>
    have hfeed : lastFeed text = [] := by simp [htext, lastFeed, hc]
    rw [hfeed, List.append_nil, htext] at hcontent
    have hbefore : before = b.text :=
      eq_of_append_breaks hcontent hlast h.last (by simpa using hc) h.breaks
    rw [hbefore] at hcontent hne
    have hending := List.append_cancel_left hcontent
    cases hb : b.ending with
    | none => exact absurd hb (h.ending (.inr hne))
    | some d =>
      rw [hb, Option.toList_some, List.singleton_append] at hending
      have hcd : c = d := (List.cons.inj hending).1
      rw [htext, hbefore, Block.chomped, hb, hcd]
      rfl
  | keep hfeed =>
    rw [hfeed, List.append_nil] at hcontent
    rw [Block.chomped, List.append_assoc]
    exact hcontent.symm

/-! ## Literal blocks -/

theorem readHeader {hint : List Char} {chomping : Chomping} (h : Chomps text hint chomping)
    (rest : List Char) :
    BlockHeader.read (indentationHint text ++ hint ++ '\n' :: rest) =
      some (⟨chomping, if indentationHint text = [] then none else some 2⟩, rest) := by
  unfold indentationHint
  split <;> cases h <;> rfl

/-- Where the header does not give the indentation, the first line shows it. -/
theorem read_literalText_first (hprintable : ∀ c ∈ text, isPrintable c = true) (hne : text ≠ [])
    (hhint : indentationHint text = []) (rest : List Char) :
    ∃ more, EmptyLines.read none 0 (literalText true text ++ rest) = some ⟨[], 4, 4, more⟩ ∧
      EmptyLines.read (some 4) 0 (literalText true text ++ rest) = some ⟨[], 4, 4, more⟩ := by
  cases text with
  | nil => exact absurd rfl hne
  | cons c text =>
    have hc : c ≠ ' ' ∧ isBreak c = false := by simpa [indentationHint] using hhint
    have hspacing := not_isSpacing (hprintable c List.mem_cons_self) hc.1 hc.2
    have hblank : isBlank c = false := by
      simp only [isSpacing, Bool.or_eq_false_iff] at hspacing
      exact hspacing.1
    rw [literalText_lineStart hc.2, List.append_assoc, List.cons_append]
    exact ⟨_, EmptyLines.read_first hc.2 hblank _, EmptyLines.read_indented hc.2 _⟩

theorem readBlock_some {given : Option Nat} {indentation : Option Nat} {chomping : Chomping}
    {lines : EmptyLines} {b : Block}
    (hheader : BlockHeader.read text = some (⟨chomping, indentation⟩, rest))
    (hgiven : indentation.map (2 + ·) = given)
    (hlines : EmptyLines.read given 0 rest = some lines)
    (hb : readLines false (given.getD (max lines.widest 3)) ⟨none, false⟩ lines = some b) :
    readBlock false (some 2) text = some (b.chomped chomping, b.rest) := by
  subst hgiven
  unfold readBlock
  cases chomping <;> simp [hheader, hlines, hb, Block.chomped]

/-- A literal block is read as its text. -/
theorem readBlock_literalText (hprintable : ∀ c ∈ text, isPrintable c = true) (hne : text ≠ [])
    (hfollows : Follows tail stop) :
    readBlock false (some 2)
        (literalHints text ++ '\n' :: (literalText true text ++ (lastFeed text ++ tail))) =
      some (text, stop) := by
  obtain ⟨hint, chomping, hhints, hchomps⟩ := exists_chomps hne
  obtain ⟨lines, b, hlines, hb, hstop, hgives⟩ :=
    readLines_literalText hfollows (lines text) ⟨none, false⟩ (by simp)
  have hheader := readHeader hchomps (literalText true text ++ (lastFeed text ++ tail))
  rw [hhints]
  have hread : readBlock false (some 2) (indentationHint text ++ hint ++
      '\n' :: (literalText true text ++ (lastFeed text ++ tail))) =
        some (b.chomped chomping, b.rest) := by
    by_cases hindentation : indentationHint text = []
    · obtain ⟨more, hfirst, hgiven⟩ := read_literalText_first hprintable hne hindentation
        (lastFeed text ++ tail)
      rw [hgiven] at hlines
      cases hlines
      rw [if_pos hindentation] at hheader
      exact readBlock_some hheader rfl hfirst hb
    · rw [if_neg hindentation] at hheader
      exact readBlock_some hheader rfl hlines hb
  rw [hread, hgives.chomped hchomps, hstop]

end Eligibility.Yaml
