import Acu.Delegator.Validate
import Acu.Tools.DateTime
import Mathlib.Order.Interval.Set.Basic

/-!
# The order of days and times

Both classes compare their fields lexicographically, a day read from a text keeps the
order of the texts, and `checkDate` accepts an interval of days.
-/

namespace Acu.Delegator

open Acu.Core Tools

/-- The days from `start` to `end_`, without a bound where `end_` is absent. -/
def accepted : Option Date → Option Date → Set (List Int)
  | none, _ => ∅
  | some start, none => Set.Ici start.fields
  | some start, some end_ => Set.Icc start.fields end_.fields

theorem notAfter_iff (a b : Date) : Date.NotAfter a b ↔ a.fields ≤ b.fields := by
  rw [← Date.gt_eq_false_iff, Bool.eq_false_iff, ne_eq, ← not_lt, ← Date.operators_compare.gt]
  exact Iff.rfl

theorem worksOn_iff (today : Date) (start end_ : Option Date) :
    WorksOn today start end_ ↔ today.fields ∈ accepted start end_ := by
  unfold WorksOn accepted
  cases start with
  | none => exact iff_of_false (fun ⟨_, h, _⟩ => nomatch h) id
  | some first =>
      simp only [Option.some.injEq, exists_eq_left', notAfter_iff]
      cases end_ with
      | none => exact and_iff_left fun _ h => nomatch h
      | some last =>
          simp only [Option.some.injEq, forall_eq']
          exact Iff.rfl

/-- Two classes with one order each, which the texts of days keep and `checkDate` asks
for. -/
theorem comparisons_lexicographic :
    (Date.operators.Compare Date.fields ∧
      IsStrictTotalOrder Date fun a b => Date.lt a b = true) ∧
    (DateTime.operators.Compare DateTime.fields ∧
      IsStrictTotalOrder DateTime fun a b => DateTime.lt a b = true) ∧
    (∀ a b : DateText, ∃ d e, a.date = some d ∧ b.date = some e ∧
      (Date.lt d e = true ↔ a.text < b.text)) ∧
    ∀ today start end_, (checkDate today start end_).1 = true ↔
      today.fields ∈ accepted start end_ := by
  refine ⟨⟨Date.operators_compare, ?_⟩, ⟨DateTime.operators_compare, ?_⟩, ?_, ?_⟩
  · exact Date.operators_compare.strictTotalOrder Date.fields_injective
  · exact DateTime.operators_compare.strictTotalOrder DateTime.fields_injective
  · intro a b
    refine ⟨_, _, a.date_eq, b.date_eq, ?_⟩
    rw [Date.lt_iff_precedes, DateText.precedes_iff]
  · intro today start end_
    rw [checkDate_iff, worksOn_iff]

end Acu.Delegator
