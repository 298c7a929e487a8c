import Mathlib.Data.List.Basic

/-!
# Tables that keep their first entries

A list of keys and values of which the first entry of a key counts, and an insertion that
leaves the entry a key has.
-/

namespace Acu.Core

universe u v

variable {κ : Type u} {α : Type v} [BEq κ]

/-- `insert` of a map: an entry of a key that has one already is not taken. -/
def insertNew (m : List (κ × α)) (e : κ × α) : List (κ × α) :=
  if (m.lookup e.1).isSome then m else m ++ [e]

variable [LawfulBEq κ]

theorem lookup_insertNew (m : List (κ × α)) (e : κ × α) (k : κ) :
    (insertNew m e).lookup k = (m ++ [e]).lookup k := by
  rw [insertNew]
  split
  next h =>
    rw [List.lookup_append, List.lookup_cons]
    by_cases hk : k = e.1
    · subst hk
      obtain ⟨v, hv⟩ := Option.isSome_iff_exists.mp h
      rw [hv]
      rfl
    · rw [beq_eq_false_iff_ne.mpr hk]
      exact (Option.or_none).symm
  next => rfl

/-- A table that is filled entry by entry holds for each key the first that was inserted. -/
theorem lookup_foldl_insertNew (l m : List (κ × α)) (k : κ) :
    (l.foldl insertNew m).lookup k = (m ++ l).lookup k := by
  induction l generalizing m with
  | nil => simp
  | cons e l ih =>
      rw [List.foldl_cons, ih, List.lookup_append, lookup_insertNew,
        ← List.lookup_append, List.append_assoc, List.singleton_append]

end Acu.Core
