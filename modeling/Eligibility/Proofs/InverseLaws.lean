import Mathlib.Data.Finset.Card
import Mathlib.Data.List.Sort
import Eligibility.Proofs.Inverse

/-!
# Inverting more than once

The inverse of a directory does not depend on the order in which the entries are visited
(`Directory.invert_eq_inverse`), and it has as many names as the directory has ids. Inverting twice
leaves every id with its smallest name alone, which is the directory itself if no two names share an
id, and inverting three times is inverting once (`Directory.inverse_laws`).
-/

namespace Eligibility.Directory

variable {d d' : Directory} {name id : String}

/-! ## Directories by what they find -/

/-- Directories that find the same ids are equal. -/
theorem eq_of_find? (h : ∀ name id, d.find? name = some id ↔ d'.find? name = some id) : d = d' := by
  obtain ⟨entries, hentries⟩ := d
  obtain ⟨entries', hentries'⟩ := d'
  have hmem : ∀ e, e ∈ entries ↔ e ∈ entries' := by
    rintro ⟨name, id⟩
    have hsame := h name id
    rwa [find?_eq_some_iff, find?_eq_some_iff] at hsame
  have hirrefl : Std.Irrefl fun a b : String × String => a.1 < b.1 :=
    ⟨fun a => String.lt_irrefl a.1⟩
  have hantisymm : Std.Antisymm fun a b : String × String => a.1 < b.1 :=
    ⟨fun _ _ hab hba => absurd (String.lt_trans hab hba) (String.lt_irrefl _)⟩
  obtain rfl : entries = entries' := List.Pairwise.eq_of_mem_iff hentries hentries' hmem
  rfl

theorem nodup_names (d : Directory) : (d.entries.map Prod.fst).Nodup := by
  rw [List.Nodup, List.pairwise_map]
  refine d.ascending.imp fun hlt heq => ?_
  rw [heq] at hlt
  exact String.lt_irrefl _ hlt

theorem mem_names : name ∈ d.entries.map Prod.fst ↔ ∃ id, d.find? name = some id := by
  simp only [List.mem_map, Prod.exists, find?_eq_some_iff]
  constructor
  · rintro ⟨_, id, hmem, rfl⟩
    exact ⟨id, hmem⟩
  · rintro ⟨id, hmem⟩
    exact ⟨name, id, hmem, rfl⟩

theorem mem_ids : id ∈ d.entries.map Prod.snd ↔ ∃ name, d.find? name = some id := by
  simp only [List.mem_map, Prod.exists, find?_eq_some_iff]
  constructor
  · rintro ⟨name, _, hmem, rfl⟩
    exact ⟨name, hmem⟩
  · rintro ⟨name, hmem⟩
    exact ⟨name, id, hmem, rfl⟩

/-! ## The order of the entries -/

/-- What is noted depends only on which entries there were. -/
theorem Notes.eq_of_mem_iff {inverse inverse' : Directory}
    {entries entries' : List (String × String)}
    (h : Notes inverse entries) (h' : Notes inverse' entries')
    (hmem : ∀ e, e ∈ entries ↔ e ∈ entries') : inverse = inverse' := by
  have hle {inverse inverse' : Directory} {entries entries' : List (String × String)}
      (h : Notes inverse entries) (h' : Notes inverse' entries')
      (hmem : ∀ e, e ∈ entries ↔ e ∈ entries') {id name : String}
      (hfind : inverse.find? id = some name) : inverse'.find? id = some name := by
    obtain ⟨hentry, hleast⟩ := h.least hfind
    obtain ⟨other, hother⟩ := h'.noted ((hmem _).1 hentry)
    obtain ⟨hotherEntry, hotherLeast⟩ := h'.least hother
    have hforth : name ≤ other := hleast other ((hmem _).2 hotherEntry)
    have hback : other ≤ name := hotherLeast name ((hmem _).1 hentry)
    rw [hother, String.le_antisymm hback hforth]
  refine eq_of_find? fun id name => ⟨hle h h' hmem, hle h' h fun e => (hmem e).symm⟩

/-- The entries may be visited in any order. -/
theorem invert_eq_inverse {visited : List (String × String)} (h : visited.Perm d.entries) :
    invert visited = d.inverse :=
  (notes_empty.foldl visited).eq_of_mem_iff (notes_inverse d) fun _ => h.mem_iff

/-! ## The ids of a directory -/

theorem exists_find?_inverse_iff :
    (∃ name, d.inverse.find? id = some name) ↔ ∃ name, d.find? name = some id := by
  constructor
  · rintro ⟨name, hname⟩
    exact ⟨name, (find?_inverse.1 hname).found⟩
  · rintro ⟨name, hname⟩
    exact exists_find?_inverse hname

/-- The inverse has a name for every id, and each once. -/
theorem size_inverse (d : Directory) :
    d.inverse.size = (d.entries.map Prod.snd).toFinset.card := by
  have hsame : (d.inverse.entries.map Prod.fst).toFinset = (d.entries.map Prod.snd).toFinset := by
    ext id
    rw [List.mem_toFinset, List.mem_toFinset, mem_names, mem_ids, exists_find?_inverse_iff]
  rw [← hsame, List.toFinset_card_of_nodup d.inverse.nodup_names, List.length_map]
  rfl

/-! ## Inverting twice and three times -/

/-- A name has one id, so the inverse maps no two ids to it. -/
theorem find?_inverse_inverse :
    d.inverse.inverse.find? name = some id ↔ d.IsLeastName id name := by
  rw [find?_inverse (d := d.inverse), ← find?_inverse (d := d)]
  constructor
  · exact IsLeastName.found
  · intro h
    refine ⟨h, fun other hother => ?_⟩
    have hid := (find?_inverse.1 h).found
    have hotherId := (find?_inverse.1 hother).found
    rw [hid] at hotherId
    obtain rfl : id = other := Option.some.inj hotherId
    exact le_iff_utf8_le.1 (String.le_refl id)

theorem isLeastName_of_unique (h : ∀ other, d.find? other = some id → other = name)
    (hname : d.find? name = some id) : d.IsLeastName id name :=
  ⟨hname, fun other hother => le_iff_utf8_le.1 (h other hother ▸ String.le_refl other)⟩

theorem inverse_inverse_eq_iff :
    d.inverse.inverse = d ↔
      ∀ a b id, d.find? a = some id → d.find? b = some id → a = b := by
  constructor
  · intro h a b id ha hb
    rw [← h, find?_inverse_inverse, ← find?_inverse] at ha hb
    exact Option.some.inj (ha.symm.trans hb)
  · intro h
    refine eq_of_find? fun name id => ?_
    rw [find?_inverse_inverse]
    exact ⟨IsLeastName.found, fun hname =>
      isLeastName_of_unique (fun other hother => h other name id hother hname) hname⟩

theorem inverse_inverse_inverse (d : Directory) : d.inverse.inverse.inverse = d.inverse := by
  refine inverse_inverse_eq_iff.2 fun a b name ha hb => ?_
  have hid := (find?_inverse.1 ha).found
  have hother := (find?_inverse.1 hb).found
  rw [hid] at hother
  exact Option.some.inj hother

/-- The inverse of a directory, in whatever order the entries are visited, finds for every id the
smallest of its names. Inverting twice keeps these names, and inverting three times is inverting
once. -/
theorem inverse_laws (d : Directory) :
    (∀ visited : List (String × String), visited.Perm d.entries → invert visited = d.inverse) ∧
    (∀ id, (∃ name, d.inverse.find? id = some name) ↔ ∃ name, d.find? name = some id) ∧
    (∀ id name, d.inverse.find? id = some name ↔ d.IsLeastName id name) ∧
    d.inverse.size = (d.entries.map Prod.snd).toFinset.card ∧
    (∀ id name, d.inverse.find? id = some name → d.find? name = some id) ∧
    (∀ name id, d.inverse.inverse.find? name = some id ↔ d.IsLeastName id name) ∧
    (d.inverse.inverse = d ↔ ∀ a b id, d.find? a = some id → d.find? b = some id → a = b) ∧
    d.inverse.inverse.inverse = d.inverse := by
  refine ⟨fun visited h => invert_eq_inverse h, fun id => exists_find?_inverse_iff,
    fun id name => find?_inverse, size_inverse d, fun id name h => ?_,
    fun name id => find?_inverse_inverse, inverse_inverse_eq_iff, inverse_inverse_inverse d⟩
  exact (find?_inverse.1 h).found

/-- The entry that is noted for the shared id is visited after one that is replaced. -/
theorem inverse_laws_descending :
    [("c", "1"), ("b", "2"), ("a", "1")].Perm
        (ofPairs [("a", "1"), ("b", "2"), ("c", "1")]).entries ∧
      invert [("c", "1"), ("b", "2"), ("a", "1")] =
        (ofPairs [("a", "1"), ("b", "2"), ("c", "1")]).inverse ∧
      (ofPairs [("a", "1"), ("b", "2"), ("c", "1")]).inverse.size = 2 := by
  have horder : [("c", "1"), ("b", "2"), ("a", "1")].Perm
      (ofPairs [("a", "1"), ("b", "2"), ("c", "1")]).entries := by decide
  obtain ⟨hinvert, -, -, hsize, -⟩ := inverse_laws (ofPairs [("a", "1"), ("b", "2"), ("c", "1")])
  exact ⟨horder, hinvert _ horder, hsize.trans (by decide)⟩

end Eligibility.Directory
