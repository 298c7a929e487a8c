import Acu.Core.Comparison
import Mathlib.Data.Int.Order.Basic

/-!
# Dates with a time of day

`DateTime` writes out two of its operators over six fields and derives the others by
negation, `<` from `!=` and `>`.
-/

namespace Acu.Tools

open Acu.Core

structure DateTime where
  m_year : Int
  m_month : Int
  m_day : Int
  m_hour : Int
  m_minute : Int
  m_second : Int
  deriving DecidableEq, Repr

namespace DateTime

def eq (lh rh : DateTime) : Bool :=
  lh.m_year == rh.m_year && lh.m_month == rh.m_month && lh.m_day == rh.m_day &&
    lh.m_hour == rh.m_hour && lh.m_minute == rh.m_minute && lh.m_second == rh.m_second

def ne (lh rh : DateTime) : Bool := !eq lh rh

def gt (lh rh : DateTime) : Bool :=
  decide (lh.m_year > rh.m_year) ||
    (lh.m_year == rh.m_year && decide (lh.m_month > rh.m_month)) ||
    (lh.m_year == rh.m_year && lh.m_month == rh.m_month && decide (lh.m_day > rh.m_day)) ||
    (lh.m_year == rh.m_year && lh.m_month == rh.m_month && lh.m_day == rh.m_day &&
      decide (lh.m_hour > rh.m_hour)) ||
    (lh.m_year == rh.m_year && lh.m_month == rh.m_month && lh.m_day == rh.m_day &&
      lh.m_hour == rh.m_hour && decide (lh.m_minute > rh.m_minute)) ||
    (lh.m_year == rh.m_year && lh.m_month == rh.m_month && lh.m_day == rh.m_day &&
      lh.m_hour == rh.m_hour && lh.m_minute == rh.m_minute &&
      decide (lh.m_second > rh.m_second))

def lt (lh rh : DateTime) : Bool := ne lh rh && !gt lh rh

def ge (lh rh : DateTime) : Bool := !lt lh rh

def le (lh rh : DateTime) : Bool := !gt lh rh

/-! ## The order of the fields -/

def operators : Operators DateTime := ⟨eq, ne, gt, lt, ge, le⟩

def fields (d : DateTime) : List Int :=
  [d.m_year, d.m_month, d.m_day, d.m_hour, d.m_minute, d.m_second]

theorem fields_injective : Function.Injective fields := by
  intro a b h
  rcases a with ⟨y, mon, d, hour, min, s⟩
  rcases b with ⟨y', mon', d', hour', min', s'⟩
  simp only [fields, List.cons.injEq, and_true] at h
  obtain ⟨rfl, rfl, rfl, rfl, rfl, rfl⟩ := h
  rfl

theorem eq_iff (a b : DateTime) : eq a b = true ↔ a.fields = b.fields := by
  simp only [eq, fields, Bool.and_eq_true, beq_iff_eq, List.cons.injEq, and_true, and_assoc]

/-- The disjunction runs through the places where the first difference can be. -/
theorem gt_iff (a b : DateTime) : gt a b = true ↔ b.fields < a.fields := by
  simp only [gt, fields, Bool.or_eq_true, Bool.and_eq_true, decide_eq_true_eq, beq_iff_eq,
    List.cons_lt_cons_iff, List.lt_irrefl, and_false, or_false]
  omega

/-- The operators compare the fields lexicographically. -/
theorem operators_compare : operators.Compare fields :=
  Operators.compare_of_negations eq_iff gt_iff
    (Operators.lt_of_ne_and_not_gt operators eq_iff gt_iff)
    (fun _ _ => rfl) (fun _ _ => rfl) fun _ _ => rfl

end DateTime

end Acu.Tools
