import Acu.Core.Decimal
import Acu.Tools.Itoa

/-!
# Decimal numerals

The digits that a number is printed with are decimal digits, and stand for the number where
they are read as such.
-/

namespace Acu.Tools

open Acu.Core Acu.Core.CMemory

theorem digitValue_lt_ten {c : UInt8} (hc : c ∈ ascii "0123456789abcdef")
    (h : digitValue c < 10) : isDigit c = true ∧ digitValue c = c.toNat - 48 := by
  have hall : (ascii "0123456789abcdef").all (fun c =>
      decide (digitValue c < 10 → isDigit c = true ∧ digitValue c = c.toNat - 48)) = true := by
    decide
  exact of_decide_eq_true (List.all_eq_true.mp hall c hc) h

theorem digit_of_digitValue {c : UInt8} (h : digitValue c < 10) :
    isDigit c = true ∧ digitValue c = c.toNat - 48 := by
  refine digitValue_lt_ten ?_ h
  by_contra hc
  rw [digitValue, List.idxOf_of_notMem hc] at h
  revert h
  decide

theorem digits_isDigit (n : Nat) : ∀ c ∈ digits 10 n, isDigit c = true :=
  fun c hc => (digit_of_digitValue (digits_lt (by decide) (by decide) n c hc)).1

theorem digitsValue_digits (n : Nat) : digitsValue 0 (digits 10 n) = n := by
  have hfold : (digits 10 n).foldl (fun n c => 10 * n + (c.toNat - 48)) 0 =
      numeralValue 10 (digits 10 n) := by
    refine List.foldl_ext _ _ _ fun a c hc => ?_
    rw [(digit_of_digitValue (digits_lt (by decide) (by decide) n c hc)).2]
  rw [digitsValue_eq (digits_isDigit n), hfold]
  exact numeralValue_digits (by decide) (by decide) n

end Acu.Tools
