import Mathlib.Data.List.Lex
import Mathlib.Order.Lattice
import Mathlib.Order.RelClasses

/-!
# Comparison operators

A class that defines its six comparison operators one by one, and the order of its
keys that they are to agree with.
-/

namespace Acu.Core

structure Operators (α : Type*) where
  eq : α → α → Bool
  ne : α → α → Bool
  gt : α → α → Bool
  lt : α → α → Bool
  ge : α → α → Bool
  le : α → α → Bool

namespace Operators

variable {α κ : Type*} [LinearOrder κ] {ops : Operators α} {key : α → κ}

/-- Each operator answers the same question about the keys. -/
structure Compare (ops : Operators α) (key : α → κ) : Prop where
  eq : ∀ a b, ops.eq a b = true ↔ key a = key b
  ne : ∀ a b, ops.ne a b = true ↔ key a ≠ key b
  gt : ∀ a b, ops.gt a b = true ↔ key b < key a
  lt : ∀ a b, ops.lt a b = true ↔ key a < key b
  ge : ∀ a b, ops.ge a b = true ↔ key b ≤ key a
  le : ∀ a b, ops.le a b = true ↔ key a ≤ key b

/-- Three operators decide the keys' order, the others are negations of these. -/
theorem compare_of_negations (eq : ∀ a b, ops.eq a b = true ↔ key a = key b)
    (gt : ∀ a b, ops.gt a b = true ↔ key b < key a)
    (lt : ∀ a b, ops.lt a b = true ↔ key a < key b)
    (ne : ∀ a b, ops.ne a b = !ops.eq a b) (ge : ∀ a b, ops.ge a b = !ops.lt a b)
    (le : ∀ a b, ops.le a b = !ops.gt a b) : Compare ops key where
  eq := eq
  ne a b := by rw [ne, Bool.not_eq_true', Bool.eq_false_iff, ne_eq, eq]
  gt := gt
  lt := lt
  ge a b := by rw [ge, Bool.not_eq_true', Bool.eq_false_iff, ne_eq, lt, not_lt]
  le a b := by rw [le, Bool.not_eq_true', Bool.eq_false_iff, ne_eq, gt, not_lt]

/-- `<` as what is neither equal nor greater. -/
theorem lt_of_ne_and_not_gt (ops : Operators α)
    (eq : ∀ a b, ops.eq a b = true ↔ key a = key b)
    (gt : ∀ a b, ops.gt a b = true ↔ key b < key a) (a b : α) :
    (!ops.eq a b && !ops.gt a b) = true ↔ key a < key b := by
  rw [Bool.and_eq_true, Bool.not_eq_true', Bool.not_eq_true', Bool.eq_false_iff,
    Bool.eq_false_iff, ne_eq, ne_eq, eq, gt, not_lt]
  constructor
  · rintro ⟨hne, hle⟩
    exact lt_of_le_of_ne hle hne
  · intro h
    exact ⟨ne_of_lt h, le_of_lt h⟩

/-- Where the key says everything about a value, `<` is a strict total order. -/
theorem Compare.strictTotalOrder (h : Compare ops key) (hkey : Function.Injective key) :
    IsStrictTotalOrder α fun a b => ops.lt a b = true where
  irrefl a ha := lt_irrefl (key a) ((h.lt a a).mp ha)
  trans a b c hab hbc := (h.lt a c).mpr (lt_trans ((h.lt a b).mp hab) ((h.lt b c).mp hbc))
  trichotomous a b hab hba := by
    rw [h.lt] at hab hba
    exact hkey (le_antisymm (not_lt.mp hba) (not_lt.mp hab))

end Operators

end Acu.Core
