import Eligibility.Configuration.Json
import Eligibility.Proofs.JsonTexts

/-!
# Configurations that are read back

A configuration keeps its entries in order, so that it is the configuration that its own entries
give. What is left to show of a format is that the entries are read back; here this is done for JSON.
-/

namespace Eligibility

namespace Directory

theorem insertEntry_of_forall_lt {name : String} (id : String) {entries : List (String × String)}
    (h : ∀ entry ∈ entries, entry.1 < name) :
    insertEntry name id entries = entries ++ [(name, id)] := by
  induction entries with
  | nil => rfl
  | cons entry rest ih =>
    obtain ⟨other, otherId⟩ := entry
    have hless : other < name := h _ List.mem_cons_self
    have hnot : ¬ name < other := fun hlt => String.lt_irrefl _ (String.lt_trans hlt hless)
    have hne : name ≠ other := by
      rintro rfl
      exact String.lt_irrefl _ hless
    rw [insertEntry, if_neg hnot, if_neg hne, ih fun e he => h e (List.mem_cons_of_mem _ he)]
    rfl

theorem entries_foldl_insert {d : Directory} {rest : List (String × String)}
    (h : Ascending (d.entries ++ rest)) :
    (rest.foldl (fun d (name, id) => d.insert name id) d).entries = d.entries ++ rest := by
  induction rest generalizing d with
  | nil => simp
  | cons entry rest ih =>
    obtain ⟨name, id⟩ := entry
    have hless : ∀ e ∈ d.entries, e.1 < name := fun e he =>
      (List.pairwise_append.1 h).2.2 e he _ List.mem_cons_self
    have hinsert : (d.insert name id).entries = d.entries ++ [(name, id)] :=
      insertEntry_of_forall_lt id hless
    rw [List.foldl_cons, ih, hinsert, List.append_assoc]
    · rfl
    · rw [hinsert, List.append_assoc]
      exact h

/-- A directory is the directory of its entries. -/
theorem ofPairs_entries (d : Directory) : ofPairs d.entries = d := by
  have hentries : (d.entries.foldl (fun d (name, id) => d.insert name id) empty).entries =
      d.entries := entries_foldl_insert (d := empty) d.ascending
  cases hd : ofPairs d.entries with
  | mk entries ascending =>
    have h : entries = d.entries := by
      rw [← ofPairs, hd] at hentries
      exact hentries
    cases d
    cases h
    rfl

end Directory

namespace Configuration

theorem ofPairs_entries (c : Configuration) : ofPairs c.sources.entries = c := by
  rw [ofPairs, Directory.ofPairs_entries]

theorem pairsOfMembers?_map (entries : List (String × String)) :
    pairsOfMembers? (entries.map fun (name, id) => (some name, .string (some id))) =
      some entries := by
  induction entries with
  | nil => rfl
  | cons entry entries ih => simp [pairsOfMembers?, ih]

theorem membersTextual_map (entries : List (String × String)) :
    Json.MembersTextual
      (entries.map fun (name, id) => (some name, .string (some id))) := by
  induction entries with
  | nil => trivial
  | cons entry entries ih => exact ⟨nofun, nofun, ih⟩

theorem isTextual_toJson (c : Configuration) : c.toJson.IsTextual :=
  ⟨nofun, membersTextual_map c.sources.entries, trivial⟩

theorem readJson_writeJson (c : Configuration) : readJson c.writeJson = some c := by
  have hsources : ofJson? c.toJson = some c := by
    simp [ofJson?, toJson, ofJsonSources?, pairsOfMembers?_map, ofPairs_entries]
  simp [readJson, writeJson, Json.parse_pretty c.isTextual_toJson, hsources]

end Configuration

end Eligibility
