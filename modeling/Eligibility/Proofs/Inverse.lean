import Eligibility.Resolver
import Eligibility.Proofs.ByteOrder

/-!
# Inverse directories

The inverse of a directory finds for an id the smallest name that has the id, byte by byte
(`Directory.find?_inverse`). It is built entry by entry, and `Notes` says what it holds after some
of the entries.
-/

namespace Eligibility.Directory

variable {d : Directory} {name id : String}

/-! ## Finding entries -/

theorem lookup_cons (name other id : String) (rest : List (String × String)) :
    ((other, id) :: rest).lookup name = if name = other then some id else rest.lookup name := by
  by_cases h : name = other
  · simp [h]
  · have hne : (name == other) = false := by simpa using h
    simp [List.lookup_cons, hne, h]

theorem lookup_insertEntry (name id other : String) (entries : List (String × String)) :
    (insertEntry name id entries).lookup other =
      if other = name then some id else entries.lookup other := by
  induction entries with
  | nil => exact lookup_cons other name id []
  | cons entry rest ih =>
    obtain ⟨first, firstId⟩ := entry
    unfold insertEntry
    split
    · exact lookup_cons other name id _
    · split
      · rename_i heq
        subst heq
        simp only [lookup_cons]
        split <;> rfl
      · rename_i hne
        simp only [lookup_cons, ih]
        split
        · rename_i hother
          rw [if_neg (hother ▸ Ne.symm hne)]
        · rfl

theorem find?_insert (d : Directory) (name id other : String) :
    (d.insert name id).find? other = if other = name then some id else d.find? other :=
  lookup_insertEntry name id other d.entries

theorem lookup_eq_some_iff {entries : List (String × String)} (h : Ascending entries) :
    entries.lookup name = some id ↔ (name, id) ∈ entries := by
  induction entries with
  | nil => simp
  | cons entry rest ih =>
    obtain ⟨first, firstId⟩ := entry
    obtain ⟨hlt, hrest⟩ := List.pairwise_cons.1 h
    by_cases hname : name = first
    · subst hname
      -- the name stands only once
      have hnot : (name, id) ∉ rest := fun hmem => String.lt_irrefl name (hlt _ hmem)
      simp [hnot, eq_comm]
    · simp [lookup_cons, hname, ih hrest]

theorem find?_eq_some_iff : d.find? name = some id ↔ (name, id) ∈ d.entries :=
  lookup_eq_some_iff d.ascending

theorem resolve_eq_ok : d.resolve name = .ok id ↔ d.find? name = some id := by
  unfold resolve
  cases d.find? name <;> simp

/-! ## Noting names -/

theorem find?_noteName_of_ne {inverse : Directory} {i : String} (h : i ≠ id) :
    (inverse.noteName name id).find? i = inverse.find? i := by
  unfold noteName
  split
  · rw [find?_insert, if_neg h]
  · split
    · rw [find?_insert, if_neg h]
    · rfl

/-- What is noted for an id is the name now given, or an earlier one that is not greater. -/
theorem find?_noteName_self (inverse : Directory) (name id : String) :
    ∃ least, (inverse.noteName name id).find? id = some least ∧ least ≤ name ∧
      (least = name ∨ inverse.find? id = some least) ∧
      ∀ known, inverse.find? id = some known → least ≤ known := by
  unfold noteName
  cases hknown : inverse.find? id with
  | none => exact ⟨name, by simp [find?_insert], String.le_refl _, .inl rfl, by simp⟩
  | some known =>
    dsimp only
    split
    · rename_i hlt
      refine ⟨name, by simp [find?_insert], String.le_refl _, .inl rfl, fun other hother => ?_⟩
      cases hother
      exact Std.le_of_lt hlt
    · rename_i hle
      refine ⟨known, hknown, String.not_lt.1 hle, .inr rfl, fun other hother => ?_⟩
      cases hother
      exact String.le_refl _

/-- What an inverse holds after some entries: for every id the smallest of its names. -/
structure Notes (inverse : Directory) (entries : List (String × String)) : Prop where
  /-- Every noted name is an entry, and no name of the same id is smaller. -/
  least : ∀ {id name}, inverse.find? id = some name →
    (name, id) ∈ entries ∧ ∀ other, (other, id) ∈ entries → name ≤ other
  /-- For every id a name is noted. -/
  noted : ∀ {id name}, (name, id) ∈ entries → ∃ least, inverse.find? id = some least

theorem notes_empty : Notes empty [] := ⟨by simp [find?, empty], by simp⟩

theorem Notes.noteName {inverse : Directory} {entries : List (String × String)}
    (h : Notes inverse entries) (name id : String) :
    Notes (inverse.noteName name id) (entries ++ [(name, id)]) := by
  obtain ⟨least, hfound, hle, hcases, hknown⟩ := find?_noteName_self inverse name id
  constructor
  · intro i n hn
    by_cases hi : i = id
    · subst hi
      obtain rfl : n = least := Option.some.inj (hn.symm.trans hfound)
      constructor
      · rcases hcases with rfl | hold
        · simp
        · simp [(h.least hold).1]
      · intro other hother
        rcases List.mem_append.1 hother with hother | hother
        · obtain ⟨known, hfind⟩ := h.noted hother
          exact String.le_trans (hknown known hfind) ((h.least hfind).2 other hother)
        · obtain ⟨rfl, -⟩ : other = name ∧ i = i := by simpa using hother
          exact hle
    · rw [find?_noteName_of_ne hi] at hn
      obtain ⟨hmem, hleast⟩ := h.least hn
      refine ⟨List.mem_append_left _ hmem, fun other hother => hleast other ?_⟩
      simpa [hi] using hother
  · intro i n hn
    by_cases hi : i = id
    · exact ⟨least, hi ▸ hfound⟩
    · rw [find?_noteName_of_ne hi]
      exact h.noted (by simpa [hi] using hn)

theorem Notes.foldl {entries : List (String × String)} (rest : List (String × String)) :
    ∀ {inverse : Directory}, Notes inverse entries →
      Notes (rest.foldl (fun inverse (name, id) => inverse.noteName name id) inverse)
        (entries ++ rest) := by
  induction rest generalizing entries with
  | nil =>
    intro inverse h
    simpa using h
  | cons entry rest ih =>
    intro inverse h
    simpa using ih (h.noteName entry.1 entry.2)

theorem notes_inverse (d : Directory) : Notes d.inverse d.entries :=
  notes_empty.foldl d.entries

/-! ## The inverse -/

/-- The name has the id, and no other name with the id comes before it byte by byte. -/
structure IsLeastName (d : Directory) (id name : String) : Prop where
  /-- The name has the id. -/
  found : d.find? name = some id
  /-- No name with the id is smaller. -/
  least : ∀ other, d.find? other = some id → utf8 name ≤ utf8 other

/-- The inverse finds the smallest name of an id, and nothing else. -/
theorem find?_inverse : d.inverse.find? id = some name ↔ d.IsLeastName id name := by
  have h := notes_inverse d
  constructor
  · intro hname
    obtain ⟨hmem, hleast⟩ := h.least hname
    refine ⟨find?_eq_some_iff.2 hmem, fun other hother => le_iff_utf8_le.1 ?_⟩
    exact hleast other (find?_eq_some_iff.1 hother)
  · rintro ⟨hfound, hleast⟩
    obtain ⟨least, hinverse⟩ := h.noted (find?_eq_some_iff.1 hfound)
    obtain ⟨hmem, hsmallest⟩ := h.least hinverse
    have hle : name ≤ least := le_iff_utf8_le.2 (hleast least (find?_eq_some_iff.2 hmem))
    have hge : least ≤ name := hsmallest name (find?_eq_some_iff.1 hfound)
    rw [hinverse, String.le_antisymm hge hle]

/-- Every id of a directory is found in the inverse. -/
theorem exists_find?_inverse (h : d.find? name = some id) :
    ∃ least, d.inverse.find? id = some least :=
  (notes_inverse d).noted (find?_eq_some_iff.1 h)

end Eligibility.Directory
