import Acu.Core.Strtol
import Acu.Inih.INIReader
import Acu.Tools.Numerals

/-!
# Numbers and switches of a configuration file

What `GetInteger` and `GetBoolean` make of a text. A number is read in the notation of C,
so that a decimal numeral comes back as its number, and one that begins with a zero as
another number.
-/

namespace Acu.Inih

open Acu.Core Acu.Core.CMemory Tools

section Digits

/-- The numeral of a number is read as decimal digits, in whatever base they are. -/
theorem numberValue_digits (n : Nat) :
    numberValue (if (digits 10 n).head? = some 48 then 8 else 10) 0 (digits 10 n) = n := by
  split
  next hzero =>
    obtain ⟨rest, hrest⟩ : ∃ rest, digits 10 n = 48 :: rest := by
      cases hd : digits 10 n with
      | nil => simp [hd] at hzero
      | cons c cs => exact ⟨cs, by simp_all⟩
    have hnil := digits_shortest (by decide) (by decide) n rest hrest
    have hvalue := digitsValue_digits n
    rw [hrest, hnil] at hvalue ⊢
    rw [← hvalue]
    rfl
  next => rw [numberValue_ten (digits_isDigit n), digitsValue_digits]

/-- `strtol` reads a number of its range back. -/
theorem strtol_decimal {long : Nat} {n : Int} (hlow : -2 ^ (long - 1) ≤ n)
    (hhigh : n < 2 ^ (long - 1)) : strtol long (decimal n) = some n := by
  have hread := @strtol_numeral _ long (digits_isDigit n.natAbs) (digits_ne_nil n.natAbs) _ rfl
  rw [numberValue_digits] at hread
  rw [decimal]
  split
  next hneg =>
    have habs : (-(n.natAbs : Int)) = n := by omega
    rw [hread.2, habs, toLong_of_range hlow hhigh]
  next hpos =>
    have habs : (n.natAbs : Int) = n := by omega
    rw [hread.1, habs, toLong_of_range hlow hhigh]

end Digits

namespace INIReader

variable {r : INIReader} {section_ name : Bytes}

theorem GetInteger_decimal {long : Nat} {n : Int} (h : r.Get section_ name [] = decimal n)
    (hlow : -2 ^ (long - 1) ≤ n) (hhigh : n < 2 ^ (long - 1)) (default_value : Int) :
    r.GetInteger long section_ name default_value = n := by
  rw [GetInteger, h, strtol_decimal hlow hhigh]
  rfl

/-- A decimal numeral that a `long` holds is taken for the number it stands for precisely where
it does not begin with a zero or is less than eight. -/
theorem GetInteger_numeral_iff {long : Nat} {ds : Bytes} (h : ∀ c ∈ ds, isDigit c = true)
    (hne : ds ≠ []) (hrange : digitsValue 0 ds < 2 ^ (long - 1))
    (hget : r.Get section_ name [] = ds) (default_value : Int) :
    r.GetInteger long section_ name default_value = (digitsValue 0 ds : Nat) ↔
      ds.head? ≠ some 48 ∨ digitsValue 0 ds < 8 := by
  have hiff := strtol_decimal_iff h hne hrange
  rw [(strtol_numeral h hne rfl).1, Option.some.injEq] at hiff
  rw [GetInteger, hget, (strtol_numeral h hne rfl).1, Option.getD_some]
  exact hiff

/-- An interval that is written with a zero in front. -/
theorem padded_interval :
    GetInteger ⟨0, fun _ => some (ascii "0060")⟩ 32 (ascii "App") (ascii "TIMER_INTERVAL") 60 =
        (digitsValue 0 (ascii "0060") : Nat) ↔
      (ascii "0060").head? ≠ some 48 ∨ digitsValue 0 (ascii "0060") < 8 :=
  GetInteger_numeral_iff (List.all_eq_true.mp (by decide)) (by decide) (by decide) rfl 60

/-- The words that stand for a Boolean value. -/
def words : Bool → List Bytes
  | true => [ascii "true", ascii "yes", ascii "on", ascii "1"]
  | false => [ascii "false", ascii "no", ascii "off", ascii "0"]

theorem GetBoolean_word {b : Bool} (h : (r.Get section_ name []).map tolower ∈ words b)
    (default_value : Bool) : r.GetBoolean section_ name default_value = b := by
  cases b with
  | true =>
      rw [GetBoolean]
      exact if_pos (by simpa [words] using h)
  | false =>
      have hno : ∀ w ∈ words false, w ∉ words true := by decide
      rw [GetBoolean]
      rw [if_neg (by simpa [words] using hno _ h), if_pos (by simpa [words] using h)]

/-- Where a key has no value, the default is what every question is answered with. -/
theorem default_of_none (h : r._values (MakeKey section_ name) = none) (long : Nat)
    (s : Bytes) (b : Bool) (n : Int) : r.Get section_ name s = s ∧
      r.GetBoolean section_ name b = b ∧ r.GetInteger long section_ name n = n := by
  have hget (s : Bytes) : r.Get section_ name s = s := by
    rw [Get, h]
    rfl
  refine ⟨hget s, ?_, ?_⟩
  · rw [GetBoolean, hget]
    rfl
  · rw [GetInteger, hget]
    rfl

end INIReader

end Acu.Inih
