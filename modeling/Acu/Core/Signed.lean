import Mathlib.Tactic.Common

/-!
# Signed integers

The value of an expression of a signed type; one that the type cannot hold is
undefined.
-/

namespace Acu.Core

def INT_MAX : Int := 2147483647

/-- A value of the type with the greatest value `max`. -/
def signed? (max v : Int) : Option Int := if -max - 1 ≤ v ∧ v ≤ max then some v else none

theorem signed?_eq_some_iff {max v w : Int} :
    signed? max v = some w ↔ w = v ∧ -max - 1 ≤ v ∧ v ≤ max := by
  by_cases h : -max - 1 ≤ v ∧ v ≤ max
  · rw [signed?, if_pos h, Option.some.injEq]
    exact ⟨fun heq => ⟨heq.symm, h⟩, fun heq => heq.1.symm⟩
  · rw [signed?, if_neg h]
    exact iff_of_false (fun hnone => nomatch hnone) fun heq => h heq.2

theorem signed?_of_fits (max v : Int) (h : -max - 1 ≤ v ∧ v ≤ max) : signed? max v = some v :=
  signed?_eq_some_iff.mpr ⟨rfl, h⟩

/-- An `int` that is not negative. -/
def Count := { n : Int // 0 ≤ n ∧ n ≤ INT_MAX }

end Acu.Core
