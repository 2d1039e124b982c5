import Mathlib.Data.List.TakeWhile
import Eligibility.Proofs.ValueLists

/-!
# Trimming

Trimming takes whitespace away from both ends of a text and nothing else: the text is what is left
between two stretches of whitespace, and what is left has none at its ends.
-/

namespace Eligibility

/-- A text that consists of whitespace. -/
def AllWhitespace (text : List Char) : Prop := ∀ c ∈ text, isWhitespace c = true

theorem AllBlank.allWhitespace {text : List Char} (h : AllBlank text) : AllWhitespace text :=
  fun c hc => Scan.isWhitespace_of_isBlank (h c hc)

theorem AllWhitespace.reverse {text : List Char} (h : AllWhitespace text) :
    AllWhitespace text.reverse := fun c hc => h c (List.mem_reverse.1 hc)

theorem trimmed_append_left {u : List Char} (hu : AllWhitespace u) (text : List Char) :
    trimmed (u ++ text) = trimmed text := by
  rw [trimmed, List.dropWhile_append_of_pos hu, trimmed]

/-- Trimming takes whitespace away from the end of what does not begin with whitespace. -/
theorem exists_dropWhile_eq (text : List Char) :
    ∃ v, AllWhitespace v ∧ text.dropWhile isWhitespace = trimmed text ++ v := by
  obtain ⟨hv, -⟩ := takeWhile_dropWhile isWhitespace (text.dropWhile isWhitespace).reverse
  refine ⟨_, AllWhitespace.reverse hv, ?_⟩
  rw [trimmed, ← List.reverse_append, List.takeWhile_append_dropWhile, List.reverse_reverse]

/-- What trimming takes away from a text, and what it leaves. -/
theorem exists_trimmed (text : List Char) :
    ∃ u v, AllWhitespace u ∧ AllWhitespace v ∧ text = u ++ trimmed text ++ v := by
  obtain ⟨v, hv, htext⟩ := exists_dropWhile_eq text
  refine ⟨text.takeWhile isWhitespace, v, (takeWhile_dropWhile isWhitespace text).1, hv, ?_⟩
  rw [List.append_assoc, ← htext, List.takeWhile_append_dropWhile]

/-- What trimming leaves does not begin with whitespace. -/
theorem head_trimmed {text : List Char} {c : Char} (h : c ∈ (trimmed text).head?) :
    isWhitespace c = false := by
  obtain ⟨v, -, htext⟩ := exists_dropWhile_eq text
  refine (takeWhile_dropWhile isWhitespace text).2 c ?_
  rw [htext, List.head?_append, Option.mem_def.1 h]
  rfl

/-- What trimming leaves does not end in whitespace. -/
theorem getLast_trimmed {text : List Char} {c : Char} (h : c ∈ (trimmed text).getLast?) :
    isWhitespace c = false := by
  rw [trimmed, List.getLast?_reverse] at h
  exact (takeWhile_dropWhile isWhitespace (text.dropWhile isWhitespace).reverse).2 c h

end Eligibility
