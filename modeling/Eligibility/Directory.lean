/-!
# Directories

A `Directory` maps names to ids. Its entries are kept in strictly ascending order of their names, by
code point, so that two directories with the same content are equal and every listing of one comes
out in the same order.

`Directory.inverse` maps each id back to a name. Several names may share an id; the smallest of them
is the one that stands for it.
-/

namespace Eligibility

/-- Entries in strictly ascending order of their names. -/
abbrev Ascending (entries : List (String × String)) : Prop :=
  entries.Pairwise fun a b => a.1 < b.1

/-- A finite map from names to ids. -/
structure Directory where
  /-- The names with their ids, by name. -/
  entries : List (String × String)
  /-- Every name stands once, and smaller names come first. -/
  ascending : Ascending entries
deriving DecidableEq

namespace Directory

/-- The entries with one more, in the place of an earlier entry of that name. -/
def insertEntry (name id : String) : List (String × String) → List (String × String)
  | [] => [(name, id)]
  | (other, otherId) :: rest =>
    if name < other then (name, id) :: (other, otherId) :: rest
    else if name = other then (name, id) :: rest
    else (other, otherId) :: insertEntry name id rest

theorem mem_insertEntry {name id : String} {entries : List (String × String)}
    {e : String × String} (h : e ∈ insertEntry name id entries) : e = (name, id) ∨ e ∈ entries := by
  induction entries with
  | nil => simpa [insertEntry] using h
  | cons entry rest ih =>
    obtain ⟨other, otherId⟩ := entry
    unfold insertEntry at h
    split at h
    · simpa using h
    · split at h
      · rcases List.mem_cons.1 h with h | h
        · exact .inl h
        · exact .inr (List.mem_cons_of_mem _ h)
      · rcases List.mem_cons.1 h with h | h
        · exact .inr (h ▸ List.mem_cons_self)
        · rcases ih h with h | h
          · exact .inl h
          · exact .inr (List.mem_cons_of_mem _ h)

theorem ascending_insertEntry (name id : String) {entries : List (String × String)}
    (h : Ascending entries) : Ascending (insertEntry name id entries) := by
  induction entries with
  | nil => simp [insertEntry, Ascending]
  | cons entry rest ih =>
    obtain ⟨other, otherId⟩ := entry
    obtain ⟨hlt, hrest⟩ := List.pairwise_cons.1 h
    unfold insertEntry
    split
    · rename_i hless
      refine List.pairwise_cons.2 ⟨fun e he => ?_, h⟩
      rcases List.mem_cons.1 he with rfl | he
      · exact hless
      · exact String.lt_trans hless (hlt e he)
    · rename_i hnot
      split
      · rename_i heq
        exact List.pairwise_cons.2 ⟨fun e he => heq ▸ hlt e he, hrest⟩
      · rename_i hne
        refine List.pairwise_cons.2 ⟨fun e he => ?_, ih hrest⟩
        rcases mem_insertEntry he with rfl | he
        · exact Std.lt_of_le_of_ne (String.not_lt.1 hnot) (Ne.symm hne)
        · exact hlt e he

/-- The directory without entries. -/
def empty : Directory := ⟨[], List.Pairwise.nil⟩

/-- The directory in which a name has the given id. -/
def insert (d : Directory) (name id : String) : Directory :=
  ⟨insertEntry name id d.entries, ascending_insertEntry name id d.ascending⟩

/-- The id of a name, if the directory has the name. -/
def find? (d : Directory) (name : String) : Option String := d.entries.lookup name

/-- Whether the directory has a name. -/
def contains (d : Directory) (name : String) : Bool := (d.find? name).isSome

/-- The directory of some pairs; of equal names the last counts. -/
def ofPairs (pairs : List (String × String)) : Directory :=
  pairs.foldl (fun d (name, id) => d.insert name id) empty

/-- The number of names. -/
def size (d : Directory) : Nat := d.entries.length

/-- Whether there are no names. -/
def isEmpty (d : Directory) : Bool := d.entries.isEmpty

/-- Notes that an id belongs to a name, unless a name that is not greater is noted already. -/
def noteName (inverse : Directory) (name id : String) : Directory :=
  match inverse.find? id with
  | none => inverse.insert id name
  | some known => if name < known then inverse.insert id name else inverse

/-- Maps the ids of some entries back to their smallest names. -/
def invert (entries : List (String × String)) : Directory :=
  entries.foldl (fun inverse (name, id) => inverse.noteName name id) empty

/-- The directory from ids back to names. -/
def inverse (d : Directory) : Directory := invert d.entries

end Directory

end Eligibility
