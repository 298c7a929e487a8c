import Acu.Core.CMemory
import Acu.Core.Comparison
import Acu.Core.Decimal
import Mathlib.Data.Int.Order.Basic

/-! # Calendar dates

`Date` as the card reader's records carry it: three integers read from an
eight-digit text, compared field by field.
-/

namespace Acu.Tools

open Acu.Core Acu.Core.CMemory

structure Date where
  m_year : Int
  m_month : Int
  m_day : Int
  deriving DecidableEq, Repr

namespace Date

/-- `Date(char* date)`: eight bytes are copied out of memory whatever they are, a
NUL among them included. -/
def ofText (m : Bytes) (date : Nat) : Option Date := do
  let year ← load m date 4
  let month ← load m (date + 4) 2
  let day ← load m (date + 6) 2
  some ⟨atoi year, atoi month, atoi day⟩

def toString (d : Date) : Bytes :=
  decimalBlank 4 d.m_year ++ ascii "-" ++ decimalZero 2 d.m_month ++ ascii "-" ++
    decimalZero 2 d.m_day

def eq (lh rh : Date) : Bool :=
  lh.m_year == rh.m_year && lh.m_month == rh.m_month && lh.m_day == rh.m_day

def ne (lh rh : Date) : Bool := !eq lh rh

def gt (lh rh : Date) : Bool :=
  decide (lh.m_year > rh.m_year) ||
    (lh.m_year == rh.m_year && decide (lh.m_month > rh.m_month)) ||
    (lh.m_year == rh.m_year && lh.m_month == rh.m_month && decide (lh.m_day > rh.m_day))

def lt (lh rh : Date) : Bool :=
  decide (lh.m_year < rh.m_year) ||
    (lh.m_year == rh.m_year && decide (lh.m_month < rh.m_month)) ||
    (lh.m_year == rh.m_year && lh.m_month == rh.m_month && decide (lh.m_day < rh.m_day))

def ge (lh rh : Date) : Bool := !lt lh rh

def le (lh rh : Date) : Bool := !gt lh rh

/-- The calendar order the operators compute. -/
def Precedes (a b : Date) : Prop :=
  a.m_year < b.m_year ∨ a.m_year = b.m_year ∧
    (a.m_month < b.m_month ∨ a.m_month = b.m_month ∧ a.m_day < b.m_day)

theorem lt_iff_precedes (a b : Date) : lt a b = true ↔ Precedes a b := by
  simp only [lt, Precedes, Bool.or_eq_true, Bool.and_eq_true, decide_eq_true_eq, beq_iff_eq]
  tauto

theorem gt_eq_lt_swap (a b : Date) : gt a b = lt b a := by
  rw [Bool.eq_iff_iff]
  simp only [gt, lt, Bool.or_eq_true, Bool.and_eq_true, decide_eq_true_eq, beq_iff_eq]
  constructor
  · rintro ((h | ⟨h, h'⟩) | ⟨⟨h, h'⟩, h''⟩)
    · exact .inl (.inl h)
    · exact .inl (.inr ⟨h.symm, h'⟩)
    · exact .inr ⟨⟨h.symm, h'.symm⟩, h''⟩
  · rintro ((h | ⟨h, h'⟩) | ⟨⟨h, h'⟩, h''⟩)
    · exact .inl (.inl h)
    · exact .inl (.inr ⟨h.symm, h'⟩)
    · exact .inr ⟨⟨h.symm, h'.symm⟩, h''⟩

/-- `a` is `b` or an earlier day. -/
def NotAfter (a b : Date) : Prop := a = b ∨ Precedes a b

theorem gt_eq_false_iff (a b : Date) : gt a b = false ↔ NotAfter a b := by
  rw [gt_eq_lt_swap, Bool.eq_false_iff, ne_eq, lt_iff_precedes, Precedes, NotAfter, Precedes]
  constructor
  · intro h
    by_cases heq : a = b
    · exact .inl heq
    · refine .inr ?_
      by_contra hlt
      refine heq ?_
      rcases a with ⟨y, m, d⟩
      rcases b with ⟨y', m', d'⟩
      simp only at h hlt
      obtain ⟨rfl, rfl, rfl⟩ : y = y' ∧ m = m' ∧ d = d' := by omega
      rfl
  · rintro (rfl | h)
    · omega
    · omega

theorem lt_eq_false_iff (a b : Date) : lt a b = false ↔ NotAfter b a := by
  rw [← gt_eq_lt_swap, gt_eq_false_iff]

/-! ## The order of the fields -/

def operators : Operators Date := ⟨eq, ne, gt, lt, ge, le⟩

def fields (d : Date) : List Int := [d.m_year, d.m_month, d.m_day]

theorem fields_injective : Function.Injective fields := by
  intro a b h
  rcases a with ⟨y, m, d⟩
  rcases b with ⟨y', m', d'⟩
  simp only [fields, List.cons.injEq, and_true] at h
  obtain ⟨rfl, rfl, rfl⟩ := h
  rfl

theorem fields_lt_iff (a b : Date) : a.fields < b.fields ↔ Precedes a b := by
  simp only [fields, Precedes, List.cons_lt_cons_iff, List.lt_irrefl, and_false, or_false]

/-- The operators compare the fields lexicographically. -/
theorem operators_compare : operators.Compare fields := by
  refine Operators.compare_of_negations ?_ ?_ ?_ (fun _ _ => rfl) (fun _ _ => rfl)
    fun _ _ => rfl
  · intro a b
    simp only [operators, eq, fields, Bool.and_eq_true, beq_iff_eq, List.cons.injEq, and_true,
      and_assoc]
  · intro a b
    rw [fields_lt_iff, ← lt_iff_precedes, ← gt_eq_lt_swap]
    exact Iff.rfl
  · intro a b
    rw [fields_lt_iff, ← lt_iff_precedes]
    exact Iff.rfl

end Date

/-! ## The order of the texts -/

/-- Eight digits in memory. -/
structure DateText where
  memory : Bytes
  address : Nat
  text : Bytes
  stands : load memory address 8 = some text
  digits : ∀ c ∈ text, isDigit c = true

namespace DateText

def date (t : DateText) : Option Date := Date.ofText t.memory t.address

def year (t : DateText) : Nat := digitsValue 0 (t.text.take 4)

def month (t : DateText) : Nat := digitsValue 0 ((t.text.drop 4).take 2)

def day (t : DateText) : Nat := digitsValue 0 (t.text.drop 6)

variable (t : DateText)

theorem text_eq : t.address + 8 ≤ t.memory.length ∧
    t.text = (t.memory.drop t.address).take 8 := by
  have hstands := t.stands
  unfold load at hstands
  split at hstands
  next hroom => exact ⟨hroom, (Option.some.inj hstands).symm⟩
  next => cases hstands

theorem length_text : t.text.length = 8 := by
  obtain ⟨hroom, htext⟩ := t.text_eq
  rw [htext, List.length_take, List.length_drop]
  omega

theorem load_field (from_ n : Nat) (h : from_ + n ≤ 8) :
    load t.memory (t.address + from_) n = some ((t.text.drop from_).take n) := by
  obtain ⟨hroom, htext⟩ := t.text_eq
  rw [load, if_pos (by omega), htext, List.drop_take, List.take_take, List.drop_drop,
    Nat.min_eq_left (by omega)]

theorem digits_field (from_ n : Nat) : ∀ c ∈ (t.text.drop from_).take n, isDigit c = true :=
  fun c hc => t.digits c (List.mem_of_mem_drop (List.mem_of_mem_take hc))

theorem atoi_field {from_ n : Nat} (h : from_ + n ≤ 8) (hn : 0 < n) (hsmall : n ≤ 4) :
    atoi ((t.text.drop from_).take n) = digitsValue 0 ((t.text.drop from_).take n) := by
  have hlength : ((t.text.drop from_).take n).length = n := by
    rw [List.length_take, List.length_drop, t.length_text]
    omega
  have hdigits := t.digits_field from_ n
  have hread := @atoi_digits_stop _ [] (List.ne_nil_of_length_pos (by omega)) hdigits
    (fun _ _ heq => nomatch heq)
  have hlt := digitsValue_lt hdigits 0
  have hpow : 10 ^ n ≤ 10 ^ 4 := Nat.pow_le_pow_right (by omega) hsmall
  rw [List.append_nil] at hread
  rw [hlength] at hlt
  rw [hread]
  omega

theorem date_eq : t.date = some ⟨t.year, t.month, t.day⟩ := by
  have hyear := t.load_field 0 4 (by omega)
  have hmonth := t.load_field 4 2 (by omega)
  have hday := t.load_field 6 2 (by omega)
  rw [Nat.add_zero] at hyear
  have hlast : (t.text.drop 6).take 2 = t.text.drop 6 :=
    List.take_of_length_le (by rw [List.length_drop, t.length_text])
  rw [date, Date.ofText, hyear, hmonth, hday]
  simp only [Option.bind_eq_bind, Option.bind_some]
  rw [t.atoi_field (by omega) (by omega) (by omega), t.atoi_field (by omega) (by omega) (by omega),
    t.atoi_field (by omega) (by omega) (by omega), hlast]
  rfl

/-- The eight digits as one number, and what its last four digits leave for each field. -/
theorem value_eq : digitsValue 0 t.text = t.year * 10000 + t.month * 100 + t.day ∧
    t.month < 100 ∧ t.day < 100 := by
  have hsplit : t.text = t.text.take 4 ++ ((t.text.drop 4).take 2 ++ t.text.drop 6) := by
    rw [← List.drop_drop (i := 2) (j := 4), List.take_append_drop, List.take_append_drop]
  have hyear : ∀ c ∈ t.text.take 4, isDigit c = true := t.digits_field 0 4
  have hmonth := t.digits_field 4 2
  have hday : ∀ c ∈ t.text.drop 6, isDigit c = true :=
    fun c hc => t.digits c (List.mem_of_mem_drop hc)
  have hmonthLength : ((t.text.drop 4).take 2).length = 2 := by
    rw [List.length_take, List.length_drop, t.length_text]
    rfl
  have hdayLength : (t.text.drop 6).length = 2 := by rw [List.length_drop, t.length_text]
  have hmonthLt := digitsValue_lt hmonth 0
  have hdayLt := digitsValue_lt hday 0
  rw [hmonthLength] at hmonthLt
  rw [hdayLength] at hdayLt
  refine ⟨?_, by exact hmonthLt, by exact hdayLt⟩
  conv_lhs => rw [hsplit]
  rw [digitsValue_append hyear, digitsValue_append hmonth, digitsValue_acc hday,
    digitsValue_acc hmonth, hmonthLength, hdayLength, year, month, day]
  omega

/-- The day that is read comes before another one as its text does. -/
theorem precedes_iff (a b : DateText) :
    Date.Precedes ⟨a.year, a.month, a.day⟩ ⟨b.year, b.month, b.day⟩ ↔ a.text < b.text := by
  obtain ⟨ha, hamonth, haday⟩ := a.value_eq
  obtain ⟨hb, hbmonth, hbday⟩ := b.value_eq
  rw [← digitsValue_lt_iff a.digits b.digits (a.length_text.trans b.length_text.symm) 0, ha, hb]
  simp only [Date.Precedes]
  omega

end DateText

end Acu.Tools
