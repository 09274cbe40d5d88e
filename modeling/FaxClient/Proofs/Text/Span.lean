import Mathlib

/-!
# Spans

A list begins with a span of elements that have a property, as long as possible.  The span is known
once the first element after it has not the property.
-/

namespace FaxClient.Text

variable {α : Type} {p : α → Bool}

theorem takeWhile_append_of_head {span rest : List α} (hspan : ∀ a ∈ span, p a = true)
    (hrest : ∀ a ∈ rest.head?, p a = false) : (span ++ rest).takeWhile p = span := by
  rw [List.takeWhile_append_of_pos hspan]
  cases rest with
  | nil => simp
  | cons a rest => simp [hrest a rfl]

theorem dropWhile_append_of_head {span rest : List α} (hspan : ∀ a ∈ span, p a = true)
    (hrest : ∀ a ∈ rest.head?, p a = false) : (span ++ rest).dropWhile p = rest := by
  rw [List.dropWhile_append_of_pos hspan]
  cases rest with
  | nil => rfl
  | cons a rest => simp [hrest a rfl]

theorem exists_span (p : α → Bool) (l : List α) :
    ∃ span rest, l = span ++ rest ∧ (∀ a ∈ span, p a = true) ∧ ∀ a ∈ rest.head?, p a = false := by
  refine ⟨_, _, List.takeWhile_append_dropWhile.symm, fun a => List.mem_takeWhile_imp, ?_⟩
  intro a ha
  have hhead := List.head?_dropWhile_not p l
  rw [Option.mem_def.mp ha] at hhead
  exact hhead

end FaxClient.Text
