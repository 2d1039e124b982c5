import Eligibility.Configuration.Yaml
import Eligibility.Proofs.Configurations
import Eligibility.Proofs.YamlEntries

/-!
# Configurations in YAML

The YAML text of a configuration is read as the same configuration
(`Configuration.readYaml_writeYaml`): its tokens are put together to a mapping of mappings, whose
entries are the entries of the configuration.
-/

namespace Eligibility

namespace Yaml

variable {chars : List Char} {c : Char}

/-! ## The characters of the text -/

theorem isAllowed_of_isPrintable (h : isPrintable c = true) : isAllowed c = true := by
  simp only [isPrintable, isAllowed, Bool.or_eq_true, Bool.and_eq_true] at h ⊢
  grind

/-- A printable text has only the line breaks that are kept. -/
theorem normalizeBreaks_of_printable (h : ∀ c ∈ chars, isPrintable c = true) :
    normalizeBreaks chars = chars := by
  induction chars with
  | nil => rfl
  | cons c chars ih =>
    have hc := h c List.mem_cons_self
    have hother : ¬ (c = '\r' || c = '\u0085') = true := by
      simp only [Bool.or_eq_true, decide_eq_true_eq]
      rintro (rfl | rfl) <;> exact absurd hc (by decide)
    have hmore := ih fun d hd => h d (List.mem_cons_of_mem c hd)
    rw [normalizeBreaks, if_neg hother, hmore]
    rintro _ rfl
    exact absurd hc (by decide)

theorem printable_entryText (key value : String) :
    ∀ c ∈ entryText key value, isPrintable c = true := by
  have hkey := (written key).printable
  have hvalue := (written value).printable
  have hmarks : ∀ c ∈ [' ', '?', ':'], isPrintable c = true :=
    List.all_eq_true.1 (by decide)
  simp only [List.mem_append, List.mem_cons, List.not_mem_nil, or_false] at hkey hvalue hmarks
  intro c hc
  unfold entryText at hc
  split at hc <;>
    simp only [List.mem_append, List.mem_cons, List.not_mem_nil, or_false] at hc <;> grind

theorem tokens_entries (key value : String) (pairs : List (String × String)) :
    tokens (String.ofList ("sources:\n".toList ++ Lexer.entriesText ((key, value) :: pairs))) =
      some ([.openBlock, .key, .scalar true "sources", .value, .openBlock] ++
        Lexer.entriesTokens ((key, value) :: pairs) ++ [.closeBlock, .closeBlock, .endOfText]) := by
  have hprintable : ∀ c ∈ "sources:\n".toList ++ Lexer.entriesText ((key, value) :: pairs),
      isPrintable c = true := by
    have hword : ∀ c ∈ "sources:\n".toList, isPrintable c = true :=
      List.all_eq_true.1 (by decide)
    intro c hc
    rcases List.mem_append.1 hc with hc | hc
    · exact hword c hc
    · obtain ⟨pair, -, hpair⟩ := List.mem_flatMap.1 hc
      exact printable_entryText pair.1 pair.2 c hpair
  have hallowed : ("sources:\n".toList ++ Lexer.entriesText ((key, value) :: pairs)).all
      isAllowed = true :=
    List.all_eq_true.2 fun c hc => isAllowed_of_isPrintable (hprintable c hc)
  rw [tokens, String.toList_ofList, if_pos hallowed, normalizeBreaks_of_printable hprintable]
  exact Lexer.run_sources key value pairs

/-! ## Nodes -/

/-- The nodes of the entries of a mapping. -/
def entriesNodes (pairs : List (String × String)) : List (Node × Node) :=
  pairs.map fun (key, value) => (.scalar (isPlain key) key, .scalar (isPlain value) value)

theorem foldlM_entriesTokens (b : Builder) (stack : List Frame) (entries : List (Node × Node))
    (pairs : List (String × String)) :
    (Lexer.entriesTokens pairs).foldlM Builder.step (b.expect (.nextKey stack false entries)) =
      some (b.expect (.nextKey stack false (entries ++ entriesNodes pairs))) := by
  induction pairs generalizing entries with
  | nil => simp [Lexer.entriesTokens, entriesNodes]
  | cons pair pairs ih =>
    obtain ⟨key, value⟩ := pair
    have hentry : (Lexer.entryTokens key value).foldlM Builder.step
        (b.expect (.nextKey stack false entries)) =
          some (b.expect (.nextKey stack false
            (entries ++ [(.scalar (isPlain key) key, .scalar (isPlain value) value)]))) := rfl
    have htokens : Lexer.entriesTokens ((key, value) :: pairs) =
        Lexer.entryTokens key value ++ Lexer.entriesTokens pairs := rfl
    rw [htokens, List.foldlM_append, hentry]
    simp only [Option.bind_eq_bind, Option.bind_some]
    rw [ih, List.append_assoc]
    rfl

theorem document_entries (key value : String) (pairs : List (String × String)) :
    document (String.ofList ("sources:\n".toList ++ Lexer.entriesText ((key, value) :: pairs))) =
      some (some (.mapping [(.scalar true "sources",
        .mapping (entriesNodes ((key, value) :: pairs)))]), .empty) := by
  have hstart : [Token.openBlock, .key, .scalar true "sources", .value, .openBlock].foldlM
      Builder.step .start = some (Builder.start.expect
        (.nextKey [⟨false, [], .value (.scalar true "sources")⟩] false [])) := rfl
  rw [document, tokens_entries]
  simp only [Option.bind_eq_bind, Option.bind_some, documentOf]
  rw [List.foldlM_append, List.foldlM_append, hstart]
  simp only [Option.bind_eq_bind, Option.bind_some]
  rw [foldlM_entriesTokens]
  rfl

theorem pairsOfEntries?_nodes (anchors : Anchors) (pairs : List (String × String)) :
    Configuration.pairsOfEntries? anchors (entriesNodes pairs) = some pairs := by
  induction pairs with
  | nil => rfl
  | cons pair pairs ih =>
    obtain ⟨key, value⟩ := pair
    simp only [entriesNodes] at ih
    simp [entriesNodes, Configuration.pairsOfEntries?, Node.text?, ih]

end Yaml

namespace Configuration

theorem readYaml_empty : readYaml "sources: \x7b\x7d\n" = some empty := by
  decide +kernel

theorem readYaml_writeYaml (c : Configuration) : readYaml c.writeYaml = some c := by
  have hc := c.ofPairs_entries
  cases hentries : c.sources.entries with
  | nil =>
    have hwrite : c.writeYaml = "sources: \x7b\x7d\n" := by
      simp [writeYaml, Directory.isEmpty, hentries]
    rw [hentries] at hc
    rw [hwrite, readYaml_empty, ← hc]
    rfl
  | cons pair pairs =>
    obtain ⟨name, id⟩ := pair
    have hwrite : c.writeYaml = String.ofList
        ("sources:\n".toList ++ Yaml.Lexer.entriesText ((name, id) :: pairs)) := by
      simp [writeYaml, Directory.isEmpty, hentries, Yaml.Lexer.entriesText]
    have hpairs := Yaml.pairsOfEntries?_nodes .empty ((name, id) :: pairs)
    rw [hentries] at hc
    rw [hwrite, readYaml, Yaml.document_entries]
    simp only [ofNode?, Yaml.Node.text?, if_true, ofSourcesNode?, hpairs, Option.map_some, hc]

end Configuration

end Eligibility
