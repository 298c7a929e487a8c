import Acu.Core.Occurrence
import Mathlib.Algebra.Ring.Nat
import Mathlib.Data.List.DropRight

/-! # Text helpers

`getElementData` cuts an element out of a text in place: it writes a NUL over the
`<` that ends the element and hands out a pointer to its first byte.
-/

namespace Acu.Tools

open Acu.Core Acu.Core.CMemory

/-- The memory afterwards and the pointer; the pointer is missing when the tag is not
found and `EXCEPTION_NOT_FOUND` is thrown. -/
def getElementData (m : Bytes) (xml_buf : Nat) (tag : Bytes) : Option (Bytes × Option Nat) := do
  match ← strstr m xml_buf (ascii "<" ++ tag) with
  | none => some (m, none)
  | some p =>
      let ret := p + tag.length + 2
      -- without a further `<` the NUL is written through a null pointer
      let close ← strstr m ret (ascii "<")
      let q ← close
      let m' ← store m q 0
      some (m', some ret)

theorem getElementData_length {m m' : Bytes} {p : Nat} {tag : Bytes} {r : Option Nat}
    (h : getElementData m p tag = some (m', r)) : m'.length = m.length := by
  unfold getElementData at h
  obtain ⟨found, _, h⟩ := Option.bind_eq_some_iff.mp h
  cases found with
  | none => cases h; rfl
  | some p =>
      obtain ⟨close, _, h⟩ := Option.bind_eq_some_iff.mp h
      obtain ⟨q, _, h⟩ := Option.bind_eq_some_iff.mp h
      obtain ⟨m₁, hs, h⟩ := Option.bind_eq_some_iff.mp h
      cases h
      exact store_length hs

section Elements

variable {tag m m' s v rest : Bytes} {b : UInt8} {p : Nat}

/-- The tag stands first behind `s`, and one letter further on a value that `<` ends. -/
structure Cut (tag m s : Bytes) (b : UInt8) (v rest : Bytes) : Prop where
  first : First (60 :: tag) m s (b :: (v ++ 60 :: rest))
  text : 0 ∉ s
  value : Plain v

/-- What stands before the value of an element. -/
def front (pre s tag : Bytes) (b : UInt8) : Bytes := pre ++ (s ++ 60 :: (tag ++ [b]))

theorem front_append (pre s tag : Bytes) (b : UInt8) (w : Bytes) :
    pre ++ (s ++ 60 :: (tag ++ b :: w)) = front pre s tag b ++ w := by
  simp [front]

theorem front_length (pre s tag : Bytes) (b : UInt8) :
    (front pre s tag b).length = pre.length + s.length + tag.length + 2 := by
  simp only [front, List.length_append, List.length_cons, List.length_nil, zero_add]
  omega

theorem exists_of_getElementData {r : Bytes × Option Nat} (h : getElementData m p tag = some r) :
    ∃ pre t, m = pre ++ t ∧ pre.length = p := by
  obtain ⟨found, hfound, -⟩ := Option.bind_eq_some_iff.mp h
  exact exists_of_strstr hfound

/-- Behind the tag the next `<` is looked for, and a NUL is written over it. -/
theorem getElementData_cut (pre : Bytes) (h : Cut tag m s b v rest) :
    getElementData (pre ++ m) pre.length tag =
      some (front pre s tag b ++ (v ++ 0 :: rest), some (front pre s tag b).length) := by
  have hkey : ascii "<" ++ tag = 60 :: tag := rfl
  have hmem : pre ++ m = front pre s tag b ++ (v ++ 60 :: rest) := by
    rw [h.first.eq]
    exact front_append pre s tag b (v ++ 60 :: rest)
  have hfound := (strstr_iff_first (List.cons_ne_nil 60 tag) pre rfl _).mpr
    ⟨s, _, h.first, h.text, rfl⟩
  have hclose : strstr (front pre s tag b ++ (v ++ 60 :: rest)) (front pre s tag b).length
      (ascii "<") = some (some ((front pre s tag b).length + v.length)) :=
    (strstr_iff_letter (front pre s tag b) rfl 60 _).mpr
      ⟨v, rest, rfl, h.value.1, h.value.2, rfl⟩
  have hcut := store_behind (front pre s tag b) v 60 0 rest
  rw [getElementData, hkey, hfound, hmem, Option.bind_eq_bind, Option.bind_some]
  simp only [Option.bind_eq_bind, ← front_length pre s tag b]
  rw [hclose, Option.bind_some, Option.bind_some, hcut]
  rfl

theorem cut_of_getElementData (pre : Bytes)
    (h : getElementData (pre ++ m) pre.length tag = some (m', some p)) :
    ∃ s b v rest, Cut tag m s b v rest := by
  have hkey : ascii "<" ++ tag = 60 :: tag := rfl
  rw [getElementData, hkey] at h
  obtain ⟨found, hfound, h⟩ := Option.bind_eq_some_iff.mp h
  cases found with
  | none => cases h
  | some start =>
      obtain ⟨close, hclose, h⟩ := Option.bind_eq_some_iff.mp h
      obtain ⟨q, hq, -⟩ := Option.bind_eq_some_iff.mp h
      obtain ⟨s, post, hfirst, h0, rfl⟩ :=
        (strstr_iff_first (List.cons_ne_nil 60 tag) pre rfl start).mp hfound
      rw [hq, hfirst.eq] at hclose
      cases post with
      | nil =>
          -- there is no letter to skip, and the search starts behind the memory
          have hout : (pre ++ (s ++ (60 :: tag ++ []))).length <
              pre.length + s.length + tag.length + 2 := by
            simp only [List.length_append, List.length_cons, List.length_nil]
            omega
          rw [strstr, List.drop_eq_nil_of_le (Nat.le_of_lt hout)] at hclose
          cases hclose
      | cons b w =>
          rw [List.cons_append, front_append, ← front_length pre s tag b] at hclose
          obtain ⟨v, rest, rfl, hv, hv0, -⟩ := (strstr_iff_letter _ rfl 60 q).mp hclose
          exact ⟨s, b, v, rest, hfirst, h0, hv, hv0⟩

/-- The call hands out a pointer precisely where the element can be cut. -/
theorem getElementData_iff_cut (pre : Bytes) (m' : Bytes) (p : Nat) :
    getElementData (pre ++ m) pre.length tag = some (m', some p) ↔
      ∃ s b v rest, Cut tag m s b v rest ∧ m' = front pre s tag b ++ (v ++ 0 :: rest) ∧
        p = (front pre s tag b).length := by
  constructor
  · intro h
    obtain ⟨s, b, v, rest, hcut⟩ := cut_of_getElementData pre h
    cases h.symm.trans (getElementData_cut pre hcut)
    exact ⟨s, b, v, rest, hcut, rfl, rfl⟩
  · intro h
    rcases h with ⟨s, b, v, rest, hcut, rfl, rfl⟩
    exact getElementData_cut pre hcut

/-- It throws precisely where the tag is absent, and then nothing is cut. -/
theorem getElementData_iff_absent (pre : Bytes) (htag : 0 ∉ tag) (m' : Bytes) :
    getElementData (pre ++ m) pre.length tag = some (m', none) ↔
      m' = pre ++ m ∧ Absent (60 :: tag) m := by
  have hkey : ascii "<" ++ tag = 60 :: tag := rfl
  have h0 : 0 ∉ 60 :: tag := by
    rw [List.mem_cons, not_or]
    exact ⟨by decide, htag⟩
  rw [← strstr_iff_absent (List.cons_ne_nil 60 tag) h0 pre rfl, getElementData, hkey]
  constructor
  · intro h
    obtain ⟨found, hfound, h⟩ := Option.bind_eq_some_iff.mp h
    cases found with
    | none =>
        cases h
        exact ⟨rfl, hfound⟩
    | some start =>
        obtain ⟨close, -, h⟩ := Option.bind_eq_some_iff.mp h
        obtain ⟨q, -, h⟩ := Option.bind_eq_some_iff.mp h
        obtain ⟨cut, -, h⟩ := Option.bind_eq_some_iff.mp h
        cases h
  · intro h
    rcases h with ⟨rfl, hmissing⟩
    rw [hmissing]
    rfl

/-- A tag stands first behind a text that does not hold it. -/
theorem Cut.of_mark (h0 : 0 ∉ s) (hs : ¬ 60 :: tag <:+: s) (htag : 60 ∉ tag) (hv : Plain v)
    (b : UInt8) (rest : Bytes) : Cut tag (s ++ 60 :: (tag ++ b :: (v ++ 60 :: rest))) s b v rest :=
  ⟨first_of_mark htag hs _, h0, hv⟩

theorem getElementData_missing (pre rest : Bytes) (h0 : 0 ∉ s) (hs : ¬ 60 :: tag <:+: s)
    (htag : 0 ∉ tag) :
    getElementData (pre ++ (s ++ 0 :: rest)) pre.length tag =
      some (pre ++ (s ++ 0 :: rest), none) :=
  (getElementData_iff_absent pre htag _).mpr ⟨rfl, s, rest, rfl, h0, hs⟩

end Elements

/-! ## Numbers -/

/-- `"0123456789abcdef"[k]`; a negative remainder points in front of the literal. -/
def digit? (k : Int) : Option UInt8 :=
  if 0 ≤ k then (ascii "0123456789abcdef")[k.toNat]? else none

/-- `for(; val && i; --i, val /= base)`, from a counter and a value on. -/
def itoaLoop (base : Int) : Nat → Int → Bytes → Option (Bytes × Nat)
  | 0, _, buf => some (buf, 0)
  | i + 1, val, buf =>
      if val = 0 then some (buf, i + 1)
      else do
        let digit ← digit? (val.tmod base)
        let buf ← store buf (i + 1) digit
        itoaLoop base i (val.tdiv base) buf

/-- `itoa(val, base)`: the static buffer afterwards and the pointer into it. -/
def itoa (buf : CharArray 32) (val base : Int) : Option (Bytes × Nat) := do
  let buf ← store buf.val 31 0
  if val = 0 then
    let buf ← store buf 30 48
    some (buf, 30)
  else
    let (buf, i) ← itoaLoop base 30 val buf
    some (buf, i + 1)

section Itoa

variable {base : Nat}

theorem digit?_eq : ∀ k < 16, digit? (k : Nat) = some (Nat.digitChar k).toNat.toUInt8 := by decide

theorem digitChar_ne_zero : ∀ k < 16, (Nat.digitChar k).toNat.toUInt8 ≠ 0 := by decide

theorem digits_of_lt {n : Nat} (h : n < base) :
    digits base n = [(Nat.digitChar n).toNat.toUInt8] := by
  rw [digits, Nat.toDigits_of_lt_base h]
  rfl

theorem digits_of_le {n : Nat} (h2 : 2 ≤ base) (h : base ≤ n) :
    digits base n = digits base (n / base) ++ [(Nat.digitChar (n % base)).toNat.toUInt8] := by
  rw [digits, Nat.toDigits_of_base_le h2 h, List.map_append]
  rfl

theorem nul_not_mem_digits (h2 : 2 ≤ base) (h16 : base ≤ 16) (n : Nat) : 0 ∉ digits base n := by
  induction n using Nat.strongRecOn with
  | ind n ih =>
      by_cases hn : n < base
      · simpa [digits_of_lt hn] using (digitChar_ne_zero n (by omega)).symm
      · have hmod : n % base < base := Nat.mod_lt n (by omega)
        have hdiv : n / base < n := Nat.div_lt_self (by omega) h2
        rw [digits_of_le h2 (by omega), List.mem_append, not_or]
        exact ⟨ih _ hdiv, by simpa using (digitChar_ne_zero (n % base) (by omega)).symm⟩

/-- The loop goes through the digits from the last one on and stops at the first digit or
where the buffer begins. -/
theorem itoaLoop_digits (h2 : 2 ≤ base) (h16 : base ≤ 16) {i : Nat} {front : Bytes} (back : Bytes)
    (hfront : front.length = i + 1) (n : Nat) :
    ∃ buf j, itoaLoop base i n (front ++ back) = some (buf, j) ∧
      buf.length = (front ++ back).length ∧
      buf.drop (j + 1) = (if n = 0 then [] else (digits base n).rtake i) ++ back := by
  induction i generalizing n front back with
  | zero =>
      refine ⟨front ++ back, 0, rfl, rfl, ?_⟩
      rw [List.rtake_zero, ite_self, ← hfront, List.drop_left, List.nil_append]
  | succ i ih =>
      by_cases hz : n = 0
      · refine ⟨front ++ back, i + 1, by simp [itoaLoop, hz], rfl, ?_⟩
        rw [if_pos hz, ← hfront, List.drop_left, List.nil_append]
      · obtain ⟨front, last, rfl⟩ : ∃ f a, front = f ++ [a] :=
          ⟨front.dropLast, front.getLast (by rintro rfl; simp at hfront),
            (List.dropLast_concat_getLast _).symm⟩
        have hlen : front.length = i + 1 := by simpa using hfront
        have hmod : n % base < base := Nat.mod_lt n (by omega)
        have hdigit : digit? ((n : Int).tmod base) =
            some (Nat.digitChar (n % base)).toNat.toUInt8 := digit?_eq (n % base) (by omega)
        have hstore : store (front ++ [last] ++ back) (i + 1)
            (Nat.digitChar (n % base)).toNat.toUInt8 =
            some (front ++ (Nat.digitChar (n % base)).toNat.toUInt8 :: back) := by
          have h := store_behind front [] last (Nat.digitChar (n % base)).toNat.toUInt8 back
          rw [← hlen]
          simpa using h
        obtain ⟨buf, j, hloop, hlength, hdrop⟩ :=
          ih ((Nat.digitChar (n % base)).toNat.toUInt8 :: back) hlen (n / base)
        refine ⟨buf, j, ?_, ?_, ?_⟩
        · rw [itoaLoop, if_neg (by omega)]
          simp only [hdigit, hstore, Option.bind_eq_bind, Option.bind_some]
          exact hloop
        · rw [hlength]
          simp
        · rw [hdrop, if_neg hz]
          by_cases hlt : n < base
          · rw [if_pos (Nat.div_eq_of_lt hlt), digits_of_lt hlt, Nat.mod_eq_of_lt hlt,
              ← List.nil_append [(Nat.digitChar n).toNat.toUInt8], List.rtake_concat_succ,
              List.rtake_nil]
            rfl
          · have hne : n / base ≠ 0 := by
              have hpos := Nat.div_pos (Nat.le_of_not_lt hlt) (by omega)
              omega
            rw [if_neg hne, digits_of_le h2 (Nat.le_of_not_lt hlt), List.rtake_concat_succ,
              List.append_assoc]
            rfl

/-- What the call hands out are the last thirty digits. -/
theorem itoa_rtake (h2 : 2 ≤ base) (h16 : base ≤ 16) (buf : CharArray 32) (n : Nat) :
    ∃ out p, itoa buf n base = some (out, p) ∧ out.length = 32 ∧
      stringAt out p = some ((digits base n).rtake 30) := by
  obtain ⟨front, last, hbuf⟩ : ∃ f a, buf.val = f ++ [a] :=
    ⟨buf.val.dropLast, buf.val.getLast (by intro h; simpa [h] using buf.property),
      (List.dropLast_concat_getLast _).symm⟩
  have hlen : front.length = 31 := by
    have hsize := buf.property
    rw [hbuf] at hsize
    simpa using hsize
  have hstore : store buf.val 31 0 = some (front ++ [0]) := by
    rw [hbuf, ← hlen]
    simpa using store_behind front [] last 0 []
  by_cases hz : n = 0
  · obtain ⟨front, last, rfl⟩ : ∃ f a, front = f ++ [a] :=
      ⟨front.dropLast, front.getLast (by rintro rfl; simp at hlen),
        (List.dropLast_concat_getLast _).symm⟩
    have hlen' : front.length = 30 := by simpa using hlen
    have hzero : store (front ++ [last] ++ [0]) 30 48 = some (front ++ [48, 0]) := by
      rw [← hlen']
      simpa using store_behind front [] last 48 [0]
    refine ⟨front ++ [48, 0], 30, ?_, by simp [hlen'], ?_⟩
    · rw [itoa, hstore, Option.bind_eq_bind, Option.bind_some, if_pos (by omega), hzero,
        Option.bind_some]
    · have hdrop : (front ++ [48, 0]).drop 30 = [48, 0] := by rw [← hlen', List.drop_left]
      rw [stringAt, hdrop, hz, digits_of_lt (by omega)]
      rfl
  · obtain ⟨out, j, hloop, hlength, hdrop⟩ := itoaLoop_digits h2 h16 [0] hlen n
    refine ⟨out, j + 1, ?_, by simpa [hlen] using hlength, ?_⟩
    · rw [itoa, hstore, Option.bind_eq_bind, Option.bind_some, if_neg (by omega)]
      simp only [hloop, Option.bind_eq_bind, Option.bind_some]
    · rw [stringAt, hdrop, if_neg hz]
      refine cstring_append_nul _ [] fun h => ?_
      exact nul_not_mem_digits h2 h16 n (List.mem_of_mem_drop h)

theorem length_digits_le_iff (h2 : 2 ≤ base) {n k : Nat} (hk : 0 < k) :
    (digits base n).length ≤ k ↔ n < base ^ k := by
  rw [digits, List.length_map, Nat.length_toDigits_le_iff h2 hk]

theorem rtake_digits (h2 : 2 ≤ base) {n k : Nat} (hk : 0 < k) (hn : n < base ^ k) :
    (digits base n).rtake k = digits base n := by
  have hlength := (length_digits_le_iff h2 hk).mpr hn
  rw [List.rtake, Nat.sub_eq_zero_of_le hlength, List.drop_zero]

/-- A value with at most thirty digits is written out in full. -/
theorem itoa_digits (h2 : 2 ≤ base) (h16 : base ≤ 16) (buf : CharArray 32) {n : Nat}
    (hn : n < base ^ 30) :
    ∃ out p, itoa buf n base = some (out, p) ∧ out.length = 32 ∧
      stringAt out p = some (digits base n) := by
  have hfull := itoa_rtake h2 h16 buf n
  rwa [rtake_digits h2 (by decide) hn] at hfull

end Itoa

/-! ## Items -/

/-- The `getline` loop of `split`, `item` read so far: an item is dropped only when
the text ends before its first character. -/
def getlines (delim : UInt8) : Bytes → Bytes → List Bytes
  | [], item => if item.isEmpty then [] else [item]
  | c :: cs, item =>
      if c = delim then item :: getlines delim cs [] else getlines delim cs (item ++ [c])

def split (s : Bytes) (delim : UInt8) : List Bytes := getlines delim s []

end Acu.Tools
