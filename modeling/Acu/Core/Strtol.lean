import Acu.Core.Decimal
import Mathlib.Algebra.Ring.Int.Defs

/-!
# Numbers in the notation of C

`strtol` with the base 0 takes a leading `0x` for a hexadecimal and a leading `0` for an
octal number.
-/

namespace Acu.Core.CMemory

/-- The value of a digit; 36 for what is none in any base. -/
def digitOf (c : UInt8) : Nat :=
  if isDigit c then c.toNat - 48
  else if 97 ≤ c ∧ c ≤ 122 then c.toNat - 87
  else if 65 ≤ c ∧ c ≤ 90 then c.toNat - 55
  else 36

/-- Reading goes on up to what is no digit of the base. -/
def numberValue (base acc : Nat) : Bytes → Nat
  | [] => acc
  | c :: cs => if digitOf c < base then numberValue base (base * acc + digitOf c) cs else acc

/-- Base and digits behind the sign. A hexadecimal number has a digit behind its `0x`. -/
def radix : Bytes → Nat × Bytes
  | 48 :: x :: d :: cs =>
      if (x = 120 ∨ x = 88) ∧ digitOf d < 16 then (16, d :: cs) else (8, 48 :: x :: d :: cs)
  | 48 :: cs => (8, 48 :: cs)
  | cs => (10, cs)

/-- The next value that a signed type of `long` bits holds. -/
def toLong (long : Nat) (v : Int) : Int := max (-2 ^ (long - 1)) (min (2 ^ (long - 1) - 1) v)

/-- `strtol(s, &end, 0)` where a `long` has `long` bits; `none` when no number is read, so that
`end` is `s`. -/
def strtol (long : Nat) (s : Bytes) : Option Int :=
  let (negative, t) := match s.dropWhile isSpace with
    | 45 :: cs => (true, cs)
    | 43 :: cs => (false, cs)
    | cs => (false, cs)
  let (base, ds) := radix t
  match ds with
  | [] => none
  | c :: cs =>
      if digitOf c < base then
        let v : Int := numberValue base 0 (c :: cs)
        some (toLong long (if negative then -v else v))
      else none

/-! ## Decimal digits -/

section Digits

variable {ds : Bytes} {c : UInt8}

theorem digitOf_digit (h : isDigit c = true) : digitOf c = c.toNat - 48 := by
  rw [digitOf, if_pos h]

theorem numberValue_ten (h : ∀ c ∈ ds, isDigit c = true) (n : Nat) :
    numberValue 10 n ds = digitsValue n ds := by
  induction ds generalizing n with
  | nil => rfl
  | cons c ds ih =>
      have hc := h c List.mem_cons_self
      have hbounds := digit_bounds hc
      rw [numberValue, digitsValue, digitOf_digit hc, if_pos (by omega), if_pos hc]
      exact ih (fun d hd => h d (List.mem_cons_of_mem _ hd)) _

theorem digitsValue_le (h : ∀ c ∈ ds, isDigit c = true) (n : Nat) : n ≤ digitsValue n ds := by
  rw [digitsValue_acc h]
  exact Nat.le_add_right_of_le (Nat.le_mul_of_pos_right n (Nat.pow_pos (by decide)))

/-- Read as octal digits, digits stay behind by what they are behind at first. -/
theorem numberValue_eight_add (h : ∀ c ∈ ds, isDigit c = true) {m n k : Nat} (hmn : m + k ≤ n) :
    numberValue 8 m ds + k ≤ digitsValue n ds := by
  induction ds generalizing m n with
  | nil => exact hmn
  | cons c ds ih =>
      have hc := h c List.mem_cons_self
      have htail : ∀ d ∈ ds, isDigit d = true := fun d hd => h d (List.mem_cons_of_mem _ hd)
      rw [numberValue]
      split
      · rw [digitsValue, if_pos hc, digitOf_digit hc]
        exact ih htail (by omega)
      · exact Nat.le_trans hmn (digitsValue_le h n)

/-- They fall behind a digit other than zero. -/
theorem numberValue_eight_lt_self (h : ∀ c ∈ ds, isDigit c = true) (hne : ds ≠ []) {n : Nat}
    (hn : 0 < n) : numberValue 8 n ds < digitsValue n ds := by
  cases ds with
  | nil => exact absurd rfl hne
  | cons c ds =>
      have hc := h c List.mem_cons_self
      have htail : ∀ d ∈ ds, isDigit d = true := fun d hd => h d (List.mem_cons_of_mem _ hd)
      rw [numberValue, digitsValue, if_pos hc]
      split
      · rw [digitOf_digit hc]
        exact numberValue_eight_add htail (k := 1) (by omega)
      · exact Nat.lt_of_lt_of_le (by omega) (digitsValue_le htail _)

/-- Octal and decimal reading agree on the numbers of one digit below eight. -/
theorem numberValue_eight_iff (h : ∀ c ∈ ds, isDigit c = true) :
    numberValue 8 0 ds = digitsValue 0 ds ↔ digitsValue 0 ds < 8 := by
  induction ds with
  | nil => exact iff_of_true rfl (by decide)
  | cons c ds ih =>
      have hc := h c List.mem_cons_self
      have hbounds := digit_bounds hc
      have htail : ∀ d ∈ ds, isDigit d = true := fun d hd => h d (List.mem_cons_of_mem _ hd)
      rw [numberValue, digitsValue, if_pos hc, digitOf_digit hc]
      by_cases hzero : c.toNat - 48 = 0
      · rw [hzero, if_pos (by decide)]
        exact ih htail
      · split
        next hoctal =>
          by_cases hds : ds = []
          · subst hds
            exact iff_of_true (by simp [numberValue, digitsValue]) (by simp [digitsValue]; omega)
          · have hless := numberValue_eight_lt_self htail hds (n := c.toNat - 48) (by omega)
            refine iff_of_false (by simpa using Nat.ne_of_lt hless) (Nat.not_lt.mpr ?_)
            -- the first digit counts at least ten
            have hplace : 10 * (c.toNat - 48) ≤ digitsValue 0 (c :: ds) := by
              cases ds with
              | nil => exact absurd rfl hds
              | cons d ds =>
                  rw [digitsValue, if_pos hc, digitsValue, if_pos (htail d List.mem_cons_self)]
                  refine Nat.le_trans ?_ (digitsValue_le
                    (fun e he => htail e (List.mem_cons_of_mem _ he)) _)
                  omega
            rw [digitsValue, if_pos hc] at hplace
            omega
        next hdecimal =>
          have hle := digitsValue_le htail (10 * 0 + (c.toNat - 48))
          refine iff_of_false ?_ (by omega)
          omega

/-- Base and digits of a decimal numeral. -/
theorem radix_digits (h : ∀ c ∈ ds, isDigit c = true) :
    radix ds = (if ds.head? = some 48 then 8 else 10, ds) := by
  unfold radix
  split
  next x d cs =>
    have hx := digit_bounds (h x (by simp))
    have hno : ¬ ((x = 120 ∨ x = 88) ∧ digitOf d < 16) := by
      rintro ⟨rfl | rfl, -⟩
      · exact absurd hx.2 (by decide)
      · exact absurd hx.2 (by decide)
    rw [if_neg hno]
    rfl
  next => rfl
  next hno =>
    have hhead : ds.head? ≠ some 48 := by
      intro hhead
      cases ds with
      | nil => cases hhead
      | cons c ds => exact hno ds (by rw [Option.some.inj hhead])
    rw [if_neg hhead]

variable {long : Nat}

theorem toLong_of_range {v : Int} (hlow : -2 ^ (long - 1) ≤ v) (hhigh : v < 2 ^ (long - 1)) :
    toLong long v = v := by
  unfold toLong
  omega

/-- A numeral with or without a minus sign, in the base its first digit makes of it. -/
theorem strtol_numeral (h : ∀ c ∈ ds, isDigit c = true) (hne : ds ≠ []) {base : Nat}
    (hbase : base = if ds.head? = some 48 then 8 else 10) :
    strtol long ds = some (toLong long (numberValue base 0 ds : Nat)) ∧
      strtol long (45 :: ds) = some (toLong long (-(numberValue base 0 ds : Nat))) := by
  cases ds with
  | nil => exact absurd rfl hne
  | cons c ds =>
      have hc := h c List.mem_cons_self
      have hbounds := digit_bounds hc
      have hdigit : digitOf c < base := by
        rw [digitOf_digit hc, hbase]
        split
        next hzero =>
          obtain rfl : c = 48 := Option.some.inj hzero
          decide
        next => omega
      have hsign : c ≠ 45 ∧ c ≠ 43 := by
        simp only [ne_eq, ← UInt8.toNat_inj]
        simp only [UInt8.reduceToNat]
        omega
      have hfirst : (c :: ds).dropWhile isSpace = c :: ds :=
        List.dropWhile_cons_of_neg (by simp [digit_not_space hc])
      have hminus : (45 :: c :: ds).dropWhile isSpace = 45 :: c :: ds :=
        List.dropWhile_cons_of_neg (by decide)
      have hplain : (match c :: ds with
          | 45 :: cs => (true, cs)
          | 43 :: cs => (false, cs)
          | cs => (false, cs)) = (false, c :: ds) := by
        split
        next heq => exact absurd (List.cons.inj heq).1 hsign.1
        next heq => exact absurd (List.cons.inj heq).1 hsign.2
        next => rfl
      have hradix : radix (c :: ds) = (base, c :: ds) := by rw [radix_digits h, hbase]
      refine ⟨?_, ?_⟩
      · simp only [strtol, hfirst, hplain, hradix, if_pos hdigit, Bool.false_eq_true, if_false]
      · simp only [strtol, hminus, hradix, if_pos hdigit, if_true]

/-- A decimal numeral in the range of a `long` is read as the number it stands for precisely
when it does not begin with a zero or is less than eight. -/
theorem strtol_decimal_iff (h : ∀ c ∈ ds, isDigit c = true) (hne : ds ≠ [])
    (hrange : digitsValue 0 ds < 2 ^ (long - 1)) :
    strtol long ds = some ((digitsValue 0 ds : Nat) : Int) ↔
      ds.head? ≠ some 48 ∨ digitsValue 0 ds < 8 := by
  have hrange' : ((digitsValue 0 ds : Nat) : Int) < 2 ^ (long - 1) := by exact_mod_cast hrange
  have hpos : (0 : Int) < 2 ^ (long - 1) := Int.pow_pos (by decide)
  rw [(strtol_numeral h hne rfl).1, Option.some.injEq]
  by_cases hzero : ds.head? = some 48
  · have hle : numberValue 8 0 ds ≤ digitsValue 0 ds :=
      numberValue_eight_add h (Nat.le_refl (0 + 0))
    rw [if_pos hzero, toLong_of_range (by omega) (by omega), Int.natCast_inj,
      numberValue_eight_iff h]
    exact ⟨.inr, fun h => h.resolve_left fun hno => hno hzero⟩
  · rw [if_neg hzero, numberValue_ten h, toLong_of_range (by omega) hrange']
    exact iff_of_true rfl (.inl hzero)

end Digits

end Acu.Core.CMemory
