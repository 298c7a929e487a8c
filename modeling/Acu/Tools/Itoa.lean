import Acu.Tools.Utils

/-!
# Numerals

The text that `itoa` leaves is read back digit by digit. The loop stops before it
writes to the first place of the buffer, so that thirty digits are all it has room for.
-/

namespace Acu.Tools

open Acu.Core Acu.Core.CMemory

def digitValue (c : UInt8) : Nat := (ascii "0123456789abcdef").idxOf c

/-- The number that digits stand for, the most significant one first. -/
def numeralValue (base : Nat) (text : Bytes) : Nat :=
  text.foldl (fun n c => base * n + digitValue c) 0

structure IsNumeral (base val : Nat) (text : Bytes) : Prop where
  digits : ∀ c ∈ text, digitValue c < base
  value : numeralValue base text = val
  nonempty : text ≠ []
  /-- Only zero itself begins with a zero. -/
  shortest : ∀ rest, text = 48 :: rest → rest = []

/-- The call comes back with its buffer written in bounds and the numeral in it. -/
def PrintsNumeral (base val : Nat) (r : Option (Bytes × Nat)) : Prop :=
  ∃ out p text, r = some (out, p) ∧ out.length = 32 ∧ stringAt out p = some text ∧
    IsNumeral base val text

section Numerals

variable {base : Nat}

theorem digitValue_digitChar : ∀ k < 16, digitValue (Nat.digitChar k).toNat.toUInt8 = k := by
  decide

theorem numeralValue_concat (text : Bytes) (c : UInt8) :
    numeralValue base (text ++ [c]) = base * numeralValue base text + digitValue c := by
  rw [numeralValue, List.foldl_append]
  rfl

theorem numeralValue_lt {text : Bytes} (h : ∀ c ∈ text, digitValue c < base) :
    numeralValue base text < base ^ text.length := by
  induction text using List.reverseRecOn with
  | nil => exact Nat.one_pos
  | append_singleton text c ih =>
      have hc := h c (List.mem_append_right _ List.mem_cons_self)
      have hrec := ih fun d hd => h d (List.mem_append_left _ hd)
      rw [numeralValue_concat, List.length_append, List.length_singleton, Nat.pow_succ']
      calc base * numeralValue base text + digitValue c
          < base * (numeralValue base text + 1) := by rw [Nat.mul_succ]; omega
        _ ≤ base * base ^ text.length := Nat.mul_le_mul_left base hrec

theorem digits_lt (h2 : 2 ≤ base) (h16 : base ≤ 16) (n : Nat) :
    ∀ c ∈ digits base n, digitValue c < base := by
  induction n using Nat.strongRecOn with
  | ind n ih =>
      by_cases hn : n < base
      · rw [digits_of_lt hn]
        intro c hc
        rw [List.mem_singleton.mp hc, digitValue_digitChar n (by omega)]
        exact hn
      · have hmod : n % base < base := Nat.mod_lt n (by omega)
        rw [digits_of_le h2 (by omega)]
        intro c hc
        rcases List.mem_append.mp hc with hc | hc
        · exact ih (n / base) (Nat.div_lt_self (by omega) h2) c hc
        · rw [List.mem_singleton.mp hc, digitValue_digitChar _ (by omega)]
          exact hmod

theorem numeralValue_digits (h2 : 2 ≤ base) (h16 : base ≤ 16) (n : Nat) :
    numeralValue base (digits base n) = n := by
  induction n using Nat.strongRecOn with
  | ind n ih =>
      by_cases hn : n < base
      · rw [digits_of_lt hn, ← List.nil_append [_], numeralValue_concat,
          digitValue_digitChar n (by omega)]
        exact Nat.zero_add n
      · have hmod : n % base < base := Nat.mod_lt n (by omega)
        rw [digits_of_le h2 (by omega), numeralValue_concat,
          ih (n / base) (Nat.div_lt_self (by omega) h2), digitValue_digitChar _ (by omega)]
        exact Nat.div_add_mod n base

theorem digits_ne_nil (n : Nat) : digits base n ≠ [] := by
  rw [digits, ne_eq, List.map_eq_nil_iff]
  exact Nat.toDigits_ne_nil

theorem digits_shortest (h2 : 2 ≤ base) (h16 : base ≤ 16) (n : Nat) (rest : Bytes)
    (h : digits base n = 48 :: rest) : rest = [] := by
  induction n using Nat.strongRecOn generalizing rest with
  | ind n ih =>
      by_cases hn : n < base
      · rw [digits_of_lt hn] at h
        exact (List.cons.inj h).2.symm
      · exfalso
        have hdiv : n / base < n := Nat.div_lt_self (by omega) h2
        have hpos : 0 < n / base := Nat.div_pos (by omega) (by omega)
        rw [digits_of_le h2 (by omega)] at h
        cases hfront : digits base (n / base) with
        | nil => exact digits_ne_nil _ hfront
        | cons c front =>
            rw [hfront, List.cons_append] at h
            obtain ⟨rfl, -⟩ := List.cons.inj h
            -- the digits in front would be a zero alone, and the value of that is zero
            have hvalue := numeralValue_digits h2 h16 (n / base)
            rw [hfront, ih _ hdiv front hfront] at hvalue
            exact Nat.ne_of_lt hpos hvalue

theorem isNumeral_digits (h2 : 2 ≤ base) (h16 : base ≤ 16) (n : Nat) :
    IsNumeral base n (digits base n) where
  digits := digits_lt h2 h16 n
  value := numeralValue_digits h2 h16 n
  nonempty := digits_ne_nil n
  shortest := digits_shortest h2 h16 n

/-- The numeral is printed precisely where it has no more than thirty digits. -/
theorem printsNumeral_iff (h2 : 2 ≤ base) (h16 : base ≤ 16) (buf : CharArray 32) (n : Nat) :
    PrintsNumeral base n (itoa buf n base) ↔ n < base ^ 30 := by
  constructor
  · rintro ⟨out, p, text, hr, -, htext, hnum⟩
    obtain ⟨out', p', hr', -, htext'⟩ := itoa_rtake h2 h16 buf n
    cases hr.symm.trans hr'
    cases htext.symm.trans htext'
    have hlt := numeralValue_lt hnum.digits
    rw [hnum.value] at hlt
    refine Nat.lt_of_lt_of_le hlt (Nat.pow_le_pow_right (by omega) ?_)
    rw [List.rtake, List.length_drop]
    omega
  · intro hn
    obtain ⟨out, p, hr, hlength, htext⟩ := itoa_digits h2 h16 buf hn
    exact ⟨out, p, _, hr, hlength, htext, isNumeral_digits h2 h16 n⟩

end Numerals

/-- An `int` that is not negative. -/
def NonNegative := { n : Nat // n ≤ 2147483647 }

def Base := { b : Nat // 2 ≤ b ∧ b ≤ 16 }

/-- Only base two has numerals that do not fit. -/
theorem itoa_prints_iff (buf : CharArray 32) (val : NonNegative) (base : Base) :
    PrintsNumeral base.val val.val (itoa buf val.val base.val) ↔
      3 ≤ base.val ∨ val.val < 2 ^ 30 := by
  obtain ⟨n, hn⟩ := val
  obtain ⟨b, h2, h16⟩ := base
  rw [printsNumeral_iff h2 h16]
  by_cases hb : 3 ≤ b
  · have hroom : (3 : Nat) ^ 30 ≤ b ^ 30 := Nat.pow_le_pow_left hb 30
    refine iff_of_true ?_ (.inl hb)
    simp only
    omega
  · have htwo : b = 2 := by omega
    subst htwo
    exact (or_iff_right hb).symm

/-- The first power of two that needs thirty-one digits loses the first one. -/
theorem itoa_loses_first_digit :
    ¬ PrintsNumeral 2 1073741824
      (itoa ⟨List.replicate 32 0, List.length_replicate⟩ 1073741824 2) :=
  fun h => absurd ((@printsNumeral_iff 2 (by decide) (by decide) _ _).mp h) (by decide)

end Acu.Tools
