import Mathlib.Data.List.DropRight

/-!
# Lists without blanks at their ends

What `dropWhile` and `rdropWhile` leave of a list that stands between others.
-/

namespace Acu.Core

universe u

variable {α : Type u} (blank : α → Bool)

/-- No blank stands at either end. -/
structure Trimmed (l : List α) : Prop where
  head : ∀ a ∈ l.head?, blank a = false
  last : ∀ a ∈ l.getLast?, blank a = false

instance (l : List α) : Decidable (Trimmed blank l) :=
  decidable_of_iff (l.head?.all (! blank ·) = true ∧ l.getLast?.all (! blank ·) = true) <| by
    simp only [Option.all_eq_true, Bool.not_eq_true']
    exact ⟨fun h => ⟨h.1, h.2⟩, fun h => ⟨h.head, h.last⟩⟩

variable {blank} {l ws : List α}

theorem dropWhile_of_head (hl : ∀ a ∈ l.head?, blank a = false) : l.dropWhile blank = l := by
  cases l with
  | nil => rfl
  | cons a l => rw [List.dropWhile_cons_of_neg (by simp [hl a rfl])]

theorem rdropWhile_of_last (hl : ∀ a ∈ l.getLast?, blank a = false) :
    l.rdropWhile blank = l := by
  rw [List.rdropWhile, dropWhile_of_head (by simpa using hl), List.reverse_reverse]

theorem dropWhile_blanks (hws : ∀ a ∈ ws, blank a = true) (hl : ∀ a ∈ l.head?, blank a = false) :
    (ws ++ l).dropWhile blank = l := by
  rw [List.dropWhile_append_of_pos hws, dropWhile_of_head hl]

theorem rdropWhile_blanks (hws : ∀ a ∈ ws, blank a = true)
    (hl : ∀ a ∈ l.getLast?, blank a = false) : (l ++ ws).rdropWhile blank = l := by
  rw [List.rdropWhile, List.reverse_append,
    dropWhile_blanks (fun a ha => hws a (List.mem_reverse.mp ha)) (by simpa using hl),
    List.reverse_reverse]

/-- Only what stands behind an element that is no blank is stripped. -/
theorem rdropWhile_append_cons {a : α} (ha : blank a = false) (l m : List α) :
    (l ++ a :: m).rdropWhile blank = l ++ a :: m.rdropWhile blank := by
  induction m using List.reverseRecOn with
  | nil => exact List.rdropWhile_concat_neg _ _ _ (by simp [ha])
  | append_singleton m b ih =>
      rw [← List.cons_append, ← List.append_assoc, List.rdropWhile_concat,
        List.rdropWhile_concat, ih]
      split <;> simp

/-- Every list is blanks and then one that begins with none. -/
theorem blanks_split (blank : α → Bool) (l : List α) :
    ∃ ws m, l = ws ++ m ∧ (∀ a ∈ ws, blank a = true) ∧ (∀ a ∈ m.head?, blank a = false) ∧
      l.dropWhile blank = m := by
  refine ⟨l.takeWhile blank, l.dropWhile blank, List.takeWhile_append_dropWhile.symm,
    fun a ha => List.mem_takeWhile_imp ha, fun a ha => ?_, rfl⟩
  cases hl : l.dropWhile blank with
  | nil => simp [hl] at ha
  | cons b m =>
      rw [hl] at ha
      cases ha
      have hnot := List.head_dropWhile_not blank (by simp [hl] : l.dropWhile blank ≠ [])
      simpa [hl] using hnot

end Acu.Core
