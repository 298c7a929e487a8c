import Acu.Core.CMemory
import Mathlib.Algebra.Ring.Nat

/-!
# Numbers in a text

Digits between blanks are read as the number they stand for, up to the largest one of
an `int`.
-/

namespace Acu.Core.CMemory

variable {ds : Bytes}

theorem digit_bounds {c : UInt8} (h : isDigit c = true) : 48 ≤ c.toNat ∧ c.toNat ≤ 57 := by
  simpa [isDigit, UInt8.le_iff_toNat_le] using h

theorem digit_not_space {c : UInt8} (h : isDigit c = true) : isSpace c = false := by
  have hc := digit_bounds h
  simp only [isSpace, Bool.or_eq_false_iff, beq_eq_false_iff_ne, ne_eq, Bool.and_eq_false_iff,
    decide_eq_false_iff_not, UInt8.le_iff_toNat_le, ← UInt8.toNat_inj]
  simp only [UInt8.reduceToNat, not_le]
  omega

/-- A text of blanks begins with no digit. -/
theorem blanks_stop {blanks : Bytes} (h : ∀ c ∈ blanks, isSpace c = true) (c : UInt8)
    (rest : Bytes) (hc : blanks = c :: rest) : isDigit c = false := by
  rw [Bool.eq_false_iff]
  intro hd
  have hspace := digit_not_space hd
  rw [h c (hc ▸ List.mem_cons_self)] at hspace
  cases hspace

theorem digitsValue_eq (h : ∀ c ∈ ds, isDigit c = true) (n : Nat) :
    digitsValue n ds = ds.foldl (fun n c => 10 * n + (c.toNat - 48)) n := by
  induction ds generalizing n with
  | nil => rfl
  | cons c ds ih =>
      rw [digitsValue, if_pos (h c List.mem_cons_self), List.foldl_cons]
      exact ih (fun d hd => h d (List.mem_cons_of_mem _ hd)) _

theorem digitsValue_lt (h : ∀ c ∈ ds, isDigit c = true) (n : Nat) :
    digitsValue n ds < (n + 1) * 10 ^ ds.length := by
  induction ds generalizing n with
  | nil => simp [digitsValue]
  | cons c ds ih =>
      have hc := digit_bounds (h c List.mem_cons_self)
      have hrec := ih (fun d hd => h d (List.mem_cons_of_mem _ hd)) (10 * n + (c.toNat - 48))
      rw [digitsValue, if_pos (h c List.mem_cons_self), List.length_cons, Nat.pow_succ]
      refine Nat.lt_of_lt_of_le hrec ?_
      calc (10 * n + (c.toNat - 48) + 1) * 10 ^ ds.length
          ≤ (10 * (n + 1)) * 10 ^ ds.length := Nat.mul_le_mul_right _ (by omega)
        _ = (n + 1) * (10 ^ ds.length * 10) := by
          rw [Nat.mul_comm 10, Nat.mul_assoc, Nat.mul_comm 10]

/-- The value grows with what stands in front of the digits. -/
theorem digitsValue_strict (h : ∀ c ∈ ds, isDigit c = true) {m n : Nat} (hlt : m < n) :
    digitsValue m ds < digitsValue n ds := by
  induction ds generalizing m n with
  | nil => exact hlt
  | cons c ds ih =>
      have hc := h c List.mem_cons_self
      rw [digitsValue, digitsValue, if_pos hc, if_pos hc]
      exact ih (fun d hd => h d (List.mem_cons_of_mem _ hd)) (by omega)

/-- Reading digits and then more of them. -/
theorem digitsValue_append (h : ∀ c ∈ ds, isDigit c = true) (n : Nat) (es : Bytes) :
    digitsValue n (ds ++ es) = digitsValue (digitsValue n ds) es := by
  induction ds generalizing n with
  | nil => rfl
  | cons c ds ih =>
      rw [List.cons_append, digitsValue, digitsValue, if_pos (h c List.mem_cons_self),
        if_pos (h c List.mem_cons_self)]
      exact ih (fun d hd => h d (List.mem_cons_of_mem _ hd)) _

/-- What was read before counts with the weight of its place. -/
theorem digitsValue_acc (h : ∀ c ∈ ds, isDigit c = true) (n : Nat) :
    digitsValue n ds = n * 10 ^ ds.length + digitsValue 0 ds := by
  induction ds generalizing n with
  | nil => simp [digitsValue]
  | cons c ds ih =>
      have htail : ∀ d ∈ ds, isDigit d = true := fun d hd => h d (List.mem_cons_of_mem _ hd)
      rw [digitsValue, digitsValue, if_pos (h c List.mem_cons_self),
        if_pos (h c List.mem_cons_self), ih htail (10 * n + _), ih htail (10 * 0 + _),
        List.length_cons, Nat.pow_succ, Nat.mul_comm (10 ^ ds.length), ← Nat.mul_assoc,
        Nat.mul_comm n, ← Nat.add_assoc, ← Nat.add_mul, Nat.mul_zero, Nat.zero_add]

/-- The first difference decides, whatever digits follow. -/
theorem digitsValue_ordered {es : Bytes} (h : ∀ c ∈ ds, isDigit c = true)
    (hes : ∀ c ∈ es, isDigit c = true) (hlength : ds.length = es.length) {m n : Nat}
    (hlt : m < n) : digitsValue m ds < digitsValue n es := by
  refine Nat.lt_of_lt_of_le (digitsValue_lt h m) ?_
  calc (m + 1) * 10 ^ ds.length
      ≤ n * 10 ^ es.length := hlength ▸ Nat.mul_le_mul_right _ hlt
    _ ≤ digitsValue n es := digitsValue_acc hes n ▸ Nat.le_add_right _ _

/-- Among numerals of one length the order of the numbers is that of the texts. -/
theorem digitsValue_lt_iff {es : Bytes} (h : ∀ c ∈ ds, isDigit c = true)
    (hes : ∀ c ∈ es, isDigit c = true) (hlength : ds.length = es.length) (n : Nat) :
    digitsValue n ds < digitsValue n es ↔ ds < es := by
  induction ds generalizing es n with
  | nil =>
      have hnil := List.eq_nil_of_length_eq_zero hlength.symm
      subst hnil
      exact iff_of_false (Nat.lt_irrefl _) (List.lt_irrefl _)
  | cons c ds ih =>
      cases es with
      | nil => cases hlength
      | cons d es =>
          have hc := digit_bounds (h c List.mem_cons_self)
          have hd := digit_bounds (hes d List.mem_cons_self)
          have hds : ∀ e ∈ ds, isDigit e = true := fun e he => h e (List.mem_cons_of_mem _ he)
          have hes' : ∀ e ∈ es, isDigit e = true := fun e he => hes e (List.mem_cons_of_mem _ he)
          have hlen : ds.length = es.length := Nat.succ.inj hlength
          rw [digitsValue, digitsValue, if_pos (h c List.mem_cons_self),
            if_pos (hes d List.mem_cons_self), List.cons_lt_cons_iff]
          rcases Nat.lt_trichotomy c.toNat d.toNat with hlt | heq | hgt
          · refine iff_of_true ?_ (.inl (UInt8.lt_iff_toNat_lt.mpr hlt))
            exact digitsValue_ordered hds hes' hlen (by omega)
          · have hcd := UInt8.toNat_inj.mp heq
            subst hcd
            rw [ih hds hes' hlen]
            exact ⟨fun hlt => .inr ⟨rfl, hlt⟩, fun hlt =>
              hlt.elim (fun hself => absurd hself (UInt8.lt_irrefl c)) And.right⟩
          · refine iff_of_false (Nat.not_lt.mpr (Nat.le_of_lt ?_)) ?_
            · exact digitsValue_ordered hes' hds hlen.symm (by omega)
            · rintro (hlt | ⟨hcd, _⟩)
              · exact Nat.lt_asymm hgt (UInt8.lt_iff_toNat_lt.mp hlt)
              · exact Nat.ne_of_gt hgt (congrArg UInt8.toNat hcd)

/-- Reading stops where the digits do. -/
theorem digitsValue_stop {behind : Bytes}
    (hbehind : ∀ c rest, behind = c :: rest → isDigit c = false)
    (h : ∀ c ∈ ds, isDigit c = true) (n : Nat) :
    digitsValue n (ds ++ behind) = digitsValue n ds := by
  induction ds generalizing n with
  | nil =>
      cases behind with
      | nil => rfl
      | cons c behind =>
          have hc := hbehind c behind rfl
          have hstop : digitsValue n (c :: behind) = n := by
            rw [digitsValue, hc, if_neg Bool.false_ne_true]
          exact hstop
  | cons c ds ih =>
      rw [List.cons_append, digitsValue, digitsValue, if_pos (h c List.mem_cons_self),
        if_pos (h c List.mem_cons_self)]
      exact ih (fun d hd => h d (List.mem_cons_of_mem _ hd)) _

/-- Digits at the start of a text, up to something that is none. -/
theorem atoi_digits_stop {behind : Bytes} (hne : ds ≠ []) (h : ∀ c ∈ ds, isDigit c = true)
    (hbehind : ∀ c rest, behind = c :: rest → isDigit c = false) :
    atoi (ds ++ behind) = min 2147483647 (digitsValue 0 ds : Int) := by
  cases ds with
  | nil => exact absurd rfl hne
  | cons c ds =>
      have hc := h c List.mem_cons_self
      have hbounds := digit_bounds hc
      have hfirst : ((c :: ds) ++ behind).dropWhile isSpace = c :: (ds ++ behind) := by
        simp [digit_not_space hc]
      have hsign : c ≠ 43 ∧ c ≠ 45 := by
        simp only [ne_eq, ← UInt8.toNat_inj]
        simp only [UInt8.reduceToNat]
        omega
      unfold atoi
      rw [hfirst]
      simp only
      split
      next heq => exact absurd (List.cons.inj heq).1 hsign.2
      next heq => exact absurd (List.cons.inj heq).1 hsign.1
      next =>
        rw [← List.cons_append, digitsValue_stop hbehind h]
        omega

/-- Digits with blanks on both sides. -/
theorem atoi_number {before behind : Bytes} (hbefore : ∀ c ∈ before, isSpace c = true)
    (h : ∀ c ∈ ds, isDigit c = true) (hbehind : ∀ c ∈ behind, isSpace c = true) :
    atoi (before ++ (ds ++ behind)) = min 2147483647 (digitsValue 0 ds : Int) := by
  have hblanks : (before ++ (ds ++ behind)).dropWhile isSpace = (ds ++ behind).dropWhile isSpace :=
    List.dropWhile_append_of_pos hbefore
  cases hds : ds with
  | nil =>
      have hnil : ([] ++ behind).dropWhile isSpace = [] := by
        rw [← List.append_nil ([] ++ behind)]
        exact List.dropWhile_append_of_pos hbehind
      rw [hds] at hblanks
      unfold atoi
      rw [hblanks, hnil]
      rfl
  | cons c cs =>
      have hread := atoi_digits_stop (hds ▸ List.cons_ne_nil c cs) h (blanks_stop hbehind)
      rw [hds] at hblanks hread
      rw [← hread]
      unfold atoi
      rw [hblanks]

end Acu.Core.CMemory
