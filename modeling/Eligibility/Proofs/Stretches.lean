/-!
# Stretches of text

A scan takes the longest stretch of characters that have a property. It takes a given text exactly
if all characters of the text have the property and the character behind it has not.
-/

namespace Eligibility

variable {p : Char → Bool} {text rest : List Char}

/-- The longest stretch of characters with a property has them all, up to one that has it not. -/
theorem takeWhile_dropWhile (p : Char → Bool) (text : List Char) :
    (∀ d ∈ text.takeWhile p, p d = true) ∧ ∀ d ∈ (text.dropWhile p).head?, p d = false := by
  constructor
  · intro d hd
    exact List.all_eq_true.1 List.all_takeWhile d hd
  · intro d hd
    have hhead := List.head?_dropWhile_not p text
    rw [Option.mem_def.1 hd] at hhead
    simpa using hhead

theorem takeWhile_append_of_head (hrest : ∀ d ∈ rest.head?, p d = false) (text : List Char) :
    (text ++ rest).takeWhile p = text.takeWhile p := by
  induction text with
  | nil => cases rest <;> simp_all
  | cons d text ih => simp [List.takeWhile_cons, ih]

theorem dropWhile_append_of_head (hrest : ∀ d ∈ rest.head?, p d = false) (text : List Char) :
    (text ++ rest).dropWhile p = text.dropWhile p ++ rest := by
  induction text with
  | nil => cases rest <;> simp_all
  | cons d text ih =>
    simp only [List.cons_append, List.dropWhile_cons, ih]
    split <;> simp

theorem takeWhile_stretch (htext : ∀ d ∈ text, p d = true) (hrest : ∀ d ∈ rest.head?, p d = false) :
    (text ++ rest).takeWhile p = text := by
  have hnone : rest.takeWhile p = [] := takeWhile_append_of_head hrest []
  rw [List.takeWhile_append_of_pos htext, hnone, List.append_nil]

theorem dropWhile_stretch (htext : ∀ d ∈ text, p d = true) (hrest : ∀ d ∈ rest.head?, p d = false) :
    (text ++ rest).dropWhile p = rest := by
  rw [List.dropWhile_append_of_pos htext]
  exact dropWhile_append_of_head hrest []

end Eligibility
