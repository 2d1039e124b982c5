import Mathlib.Data.List.TakeWhile
import Eligibility.Configuration
import Eligibility.Proofs.InverseLaws

/-!
# Warnings are right about rendering

An id that several names share is reported once, with all its names, and the name that is announced
for it is the one that rendering writes, because both are the smallest. A configuration without
warnings has no blank names or ids and no shared ids, so rendering gives every name back
(`Configuration.warnings_sound`).
-/

namespace Eligibility

/-- Nothing is left of a text by trimming exactly if the text is blank. -/
theorem trim_eq_empty_iff {text : String} : trim text = "" ↔ isBlankText text = true := by
  have htrimmed : trimmed text.toList = [] ↔ ∀ c ∈ text.toList, isWhitespace c = true := by
    rw [trimmed, List.reverse_eq_nil_iff, List.dropWhile_eq_nil_iff]
    constructor
    · intro h
      -- what is left at the start would begin with a character that is no whitespace
      have hdrop : text.toList.dropWhile isWhitespace = [] := by
        refine Classical.byContradiction fun hne => ?_
        have hhead := List.head_dropWhile_not isWhitespace hne
        have hblank := h _ (List.mem_reverse.2 (List.head_mem hne))
        simp [hhead] at hblank
      exact List.dropWhile_eq_nil_iff.1 hdrop
    · intro h c hc
      exact h c ((List.dropWhile_sublist isWhitespace).subset (List.mem_reverse.1 hc))
  rw [trim, isBlankText, List.all_eq_true, ← htrimmed]
  constructor
  · intro h
    simpa using congrArg String.toList h
  · intro h
    rw [h]

/-- Whether a warning says that the id belongs to several names. -/
def Warning.isSharing (id : String) : Warning → Bool
  | sharedId other _ => other == id
  | _ => false

namespace Configuration

variable {c : Configuration} {id name winner : String} {others : List String}

/-! ## The names of an id -/

theorem mem_namesOf : name ∈ c.namesOf id ↔ c.sources.find? name = some id := by
  rw [Directory.find?_eq_some_iff]
  simp [namesOf]

theorem pairwise_namesOf (c : Configuration) (id : String) :
    (c.namesOf id).Pairwise fun a b => utf8 a < utf8 b := by
  rw [namesOf, List.pairwise_map]
  exact (c.sources.ascending.filter _).imp fun hlt => lt_iff_utf8_lt.1 hlt

/-- The first of the names is the one that the inverse finds. -/
theorem find?_inverse_of_namesOf (h : c.namesOf id = winner :: others) :
    c.sources.inverse.find? id = some winner := by
  have hpairwise := c.pairwise_namesOf id
  rw [h, List.pairwise_cons] at hpairwise
  refine Directory.find?_inverse.2 ⟨mem_namesOf.1 (h ▸ List.mem_cons_self), fun other hother => ?_⟩
  rw [← mem_namesOf, h] at hother
  rcases List.mem_cons.1 hother with rfl | hother
  · exact Std.le_refl _
  · exact Std.le_of_lt (hpairwise.1 other hother)

/-- The id belongs to several names. -/
def Shared (c : Configuration) (id : String) : Prop :=
  ∃ a b, a ≠ b ∧ c.sources.find? a = some id ∧ c.sources.find? b = some id

theorem shared_iff_namesOf :
    c.Shared id ↔ ∃ winner next others, c.namesOf id = winner :: next :: others := by
  constructor
  · rintro ⟨a, b, hne, ha, hb⟩
    rw [← mem_namesOf] at ha hb
    match hnames : c.namesOf id with
    | [] =>
      rw [hnames] at ha
      cases ha
    | [_] =>
      rw [hnames, List.mem_singleton] at ha hb
      exact absurd (ha.trans hb.symm) hne
    | winner :: next :: others => exact ⟨winner, next, others, rfl⟩
  · rintro ⟨winner, next, others, hnames⟩
    have hpairwise := c.pairwise_namesOf id
    rw [hnames, List.pairwise_cons] at hpairwise
    have hlt := hpairwise.1 next List.mem_cons_self
    refine ⟨winner, next, ?_, mem_namesOf.1 (by simp [hnames]), mem_namesOf.1 (by simp [hnames])⟩
    rintro rfl
    exact List.lt_irrefl _ hlt

theorem sharingWarnings_of_shared (hid : trim id ≠ "") (h : c.Shared id) :
    c.sharingWarnings id = [.sharedId id (c.namesOf id)] := by
  obtain ⟨winner, next, others, hnames⟩ := shared_iff_namesOf.1 h
  have hblank : ¬ isBlankText id = true := mt trim_eq_empty_iff.2 hid
  simp [sharingWarnings, hblank, hnames]

theorem sharingWarnings_eq_nil (h : ¬ (trim id ≠ "" ∧ c.Shared id)) :
    c.sharingWarnings id = [] := by
  rw [sharingWarnings, if_pos]
  by_cases hid : trim id = ""
  · simp [trim_eq_empty_iff.1 hid]
  · have hshared : ¬ c.Shared id := fun hshared => h ⟨hid, hshared⟩
    rw [shared_iff_namesOf] at hshared
    match hnames : c.namesOf id with
    | [] => simp
    | [_] => simp
    | winner :: next :: others => exact absurd ⟨winner, next, others, hnames⟩ hshared

/-! ## The warnings about an id -/

theorem nodup_ids (c : Configuration) : c.ids.Nodup := c.sources.inverse.nodup_names

theorem mem_ids : id ∈ c.ids ↔ ∃ name, c.sources.find? name = some id := by
  rw [ids, Directory.mem_names, Directory.exists_find?_inverse_iff]

theorem not_isSharing_of_mem {w : Warning} {other : String} (h : w ∈ entryWarnings name other) :
    w.isSharing id = false := by
  unfold entryWarnings at h
  rcases List.mem_append.1 h with h | h
  · split at h
    · rw [List.mem_singleton.1 h]
      rfl
    · cases h
  · split at h
    · rw [List.mem_singleton.1 h]
      rfl
    · cases h

theorem filter_sharingWarnings (c : Configuration) (id other : String) :
    (c.sharingWarnings other).filter (Warning.isSharing id) =
      if other = id then c.sharingWarnings id else [] := by
  unfold sharingWarnings
  by_cases h : other = id
  · subst h
    split <;> simp [Warning.isSharing]
  · split <;> simp [Warning.isSharing, h]

/-- Every id is looked at once, so what is said of it is said once. -/
theorem filter_warnings (c : Configuration) (id : String) :
    c.warnings.filter (Warning.isSharing id) = c.sharingWarnings id := by
  have hids : ∀ {ids : List String}, ids.Nodup →
      (ids.flatMap c.sharingWarnings).filter (Warning.isSharing id) =
        if id ∈ ids then c.sharingWarnings id else [] := by
    intro ids hnodup
    induction ids with
    | nil => simp
    | cons other ids ih =>
      obtain ⟨hother, hnodup⟩ := List.nodup_cons.1 hnodup
      rw [List.flatMap_cons, List.filter_append, ih hnodup, filter_sharingWarnings]
      by_cases h : other = id
      · subst h
        simp [hother]
      · simp [h, Ne.symm h]
  rw [warnings, List.filter_append, hids c.nodup_ids, List.filter_eq_nil_iff.2, List.nil_append]
  · split
    · rfl
    · rename_i hid
      refine (sharingWarnings_eq_nil ?_).symm
      rintro ⟨-, a, -, -, ha, -⟩
      exact hid (mem_ids.2 ⟨a, ha⟩)
  · -- the warnings about entries are of the other kinds
    intro w hw
    obtain ⟨⟨name, other⟩, -, hw⟩ := List.mem_flatMap.1 hw
    simp [not_isSharing_of_mem hw]

/-! ## No warnings -/

theorem entryWarnings_eq_nil_iff :
    entryWarnings name id = [] ↔ trim name ≠ "" ∧ trim id ≠ "" := by
  rw [Ne, Ne, trim_eq_empty_iff, trim_eq_empty_iff, entryWarnings, List.append_eq_nil_iff]
  simp

theorem warnings_eq_nil_iff :
    c.warnings = [] ↔
      (∀ name id, c.sources.find? name = some id → trim name ≠ "" ∧ trim id ≠ "") ∧
      ∀ id, ¬ c.Shared id := by
  rw [warnings, List.append_eq_nil_iff, List.flatMap_eq_nil_iff, List.flatMap_eq_nil_iff]
  constructor
  · rintro ⟨hentries, hids⟩
    have hfilled : ∀ name id, c.sources.find? name = some id → trim name ≠ "" ∧ trim id ≠ "" :=
      fun name id h => entryWarnings_eq_nil_iff.1 (hentries _ (Directory.find?_eq_some_iff.1 h))
    refine ⟨hfilled, fun id hshared => ?_⟩
    obtain ⟨a, b, hne, ha, hb⟩ := hshared
    have hnone := hids id (mem_ids.2 ⟨a, ha⟩)
    rw [sharingWarnings_of_shared (hfilled a id ha).2 ⟨a, b, hne, ha, hb⟩] at hnone
    cases hnone
  · rintro ⟨hfilled, hnone⟩
    constructor
    · rintro ⟨name, id⟩ hmem
      exact entryWarnings_eq_nil_iff.2 (hfilled name id (Directory.find?_eq_some_iff.2 hmem))
    · intro id _
      exact sharingWarnings_eq_nil fun h => hnone id h.2

/-- A shared id is reported once, with its names in byte order, and the name that is announced is
the one that the inverse of the sources finds. Without warnings the inverse gives every name
back. -/
theorem warnings_sound (c : Configuration) :
    (∀ id, trim id ≠ "" → c.Shared id →
      ∃ winner others,
        c.warnings.filter (Warning.isSharing id) = [.sharedId id (winner :: others)] ∧
        (∀ name, name ∈ winner :: others ↔ c.sources.find? name = some id) ∧
        ((winner :: others).Pairwise fun a b => utf8 a < utf8 b) ∧
        (Warning.sharedId id (winner :: others)).message =
          "source id '" ++ id ++ "' is shared by " ++
            ", ".intercalate ((winner :: others).map fun name => "'" ++ name ++ "'") ++
            ", rendering will always use '" ++ winner ++ "'" ∧
        c.sources.inverse.resolve id = .ok winner) ∧
    (∀ id, ¬ (trim id ≠ "" ∧ c.Shared id) → c.warnings.filter (Warning.isSharing id) = []) ∧
    (c.warnings = [] ↔
      (∀ name id, c.sources.find? name = some id → trim name ≠ "" ∧ trim id ≠ "") ∧
      ∀ id, ¬ c.Shared id) ∧
    (c.warnings = [] → ∀ name id, c.sources.find? name = some id →
      c.sources.inverse.resolve id = .ok name) := by
  refine ⟨fun id hid hshared => ?_, fun id h => ?_, warnings_eq_nil_iff, fun h name id hname => ?_⟩
  · obtain ⟨winner, next, others, hnames⟩ := shared_iff_namesOf.1 hshared
    have hpairwise := c.pairwise_namesOf id
    refine ⟨winner, next :: others, ?_, fun name => ?_, hnames ▸ hpairwise, rfl, ?_⟩
    · rw [filter_warnings, sharingWarnings_of_shared hid hshared, hnames]
    · rw [← hnames, mem_namesOf]
    · exact Directory.resolve_eq_ok.2 (find?_inverse_of_namesOf hnames)
  · rw [filter_warnings, sharingWarnings_eq_nil h]
  · have hunique : ∀ other, c.sources.find? other = some id → other = name := by
      intro other hother
      refine Classical.byContradiction fun hne => ?_
      exact (warnings_eq_nil_iff.1 h).2 id ⟨other, name, hne, hother, hname⟩
    exact Directory.resolve_eq_ok.2
      (Directory.find?_inverse.2 (Directory.isLeastName_of_unique hunique hname))

/-- An id with two names beside a blank name and a blank id, and a configuration without
warnings. -/
theorem warnings_sound_shared :
    trim "1" ≠ "" ∧ (ofPairs [("LDAP", "1"), ("HR", "1"), (" ", "2"), ("Old", "")]).Shared "1" ∧
      (∃ winner others,
        (ofPairs [("LDAP", "1"), ("HR", "1"), (" ", "2"), ("Old", "")]).warnings.filter
            (Warning.isSharing "1") = [.sharedId "1" (winner :: others)] ∧
          (ofPairs [("LDAP", "1"), ("HR", "1"), (" ", "2"), ("Old", "")]).sources.inverse.resolve
            "1" = .ok winner) ∧
      (ofPairs [("LDAP", "1"), ("HR", "2")]).warnings = [] ∧
      (ofPairs [("LDAP", "1"), ("HR", "2")]).sources.inverse.resolve "1" = .ok "LDAP" := by
  have hid : trim "1" ≠ "" := by decide
  have hshared : (ofPairs [("LDAP", "1"), ("HR", "1"), (" ", "2"), ("Old", "")]).Shared "1" :=
    ⟨"LDAP", "HR", by decide, by decide, by decide⟩
  have hnone : (ofPairs [("LDAP", "1"), ("HR", "2")]).warnings = [] := by decide
  obtain ⟨winner, others, hwarning, -, -, -, hwinner⟩ := (warnings_sound _).1 "1" hid hshared
  have hback := (warnings_sound (ofPairs [("LDAP", "1"), ("HR", "2")])).2.2.2 hnone
  exact ⟨hid, hshared, ⟨winner, others, hwarning, hwinner⟩, hnone, hback "LDAP" "1" (by decide)⟩

end Configuration

end Eligibility
