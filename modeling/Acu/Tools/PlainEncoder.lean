import Acu.Tools.RoundTrip

/-! # The plain encoder beside the fast one

`base64e` tests each index of a group with `>` where the byte behind the string already
has the index `length`. It therefore reads one byte beyond every string that ends in an
incomplete group, and puts bits of that byte into the text.
-/

namespace Acu.Tools.Base64

open Acu.Core

/-- The bytes `c3`, `c2`, `c1` of the union as one value; `e1` is its lowest field. -/
def packed (c3 c2 c1 : UInt8) : Nat := c1.toNat + c2.toNat * 256 + c3.toNat * 65536

/-- `temp.c2 = (i + k) > length ? 0 : src[i + k]`, with the position `i + k` given. -/
def loadUnlessPast (m : Bytes) (length pos : Nat) : Option UInt8 :=
  if length < pos then some 0 else m[pos]?

/-- One round of `base64e`: the four characters written for the group at `i`. -/
def plainGroup (m : Bytes) (length i : Nat) : Option Bytes := do
  let c3 ← m[i]?
  let c2 ← loadUnlessPast m length (i + 1)
  let c1 ← loadUnlessPast m length (i + 2)
  let v := packed c3 c2 c1
  some [symbol (v / 262144 % 64), symbol (v / 4096 % 64),
    if length < i + 2 then 61 else symbol (v / 64 % 64),
    if length < i + 3 then 61 else symbol (v % 64)]

def plainLoop (m : Bytes) (length : Nat) : Nat → Nat → Option Bytes
  | 0, _ => some []
  | groups + 1, i => do
      let group ← plainGroup m length i
      let text ← plainLoop m length groups (i + 3)
      some (group ++ text)

/-- `base64e(src, result, length)` on the memory `m` at `src`: the text written, `none` when a
byte is read that the memory does not have. -/
def base64e (m : Bytes) (length : Nat) : Option Bytes :=
  plainLoop m length ((length + 2) / 3) 0

/-! ## The groups -/

section Groups

variable {rest : Bytes} {length : Nat}

theorem packed_fields (c3 c2 c1 : UInt8) :
    packed c3 c2 c1 / 262144 % 64 = c3.toNat / 4 ∧
      packed c3 c2 c1 / 4096 % 64 = c3.toNat % 4 * 16 + c2.toNat / 16 ∧
      packed c3 c2 c1 / 64 % 64 = c2.toNat % 16 * 4 + c1.toNat / 64 ∧
      packed c3 c2 c1 % 64 = c1.toNat % 64 := by
  have h3 := c3.toNat_lt
  have h2 := c2.toNat_lt
  have h1 := c1.toNat_lt
  unfold packed
  omega

theorem getElem?_pre (pre l : Bytes) (k : Nat) : (pre ++ l)[pre.length + k]? = l[k]? := by
  rw [List.getElem?_append_right (by omega), Nat.add_sub_cancel_left]

theorem loadUnlessPast_pre {pre : Bytes} {k : Nat} (l : Bytes) (h : pre.length + k ≤ length) :
    loadUnlessPast (pre ++ l) length (pre.length + k) = l[k]? := by
  rw [loadUnlessPast, if_neg (by omega), getElem?_pre]

/-- A complete group is written as the fast encoder writes it. -/
theorem plainGroup_three (pre : Bytes) (c0 c1 c2 : UInt8) (h : pre.length + 3 ≤ length) :
    plainGroup (pre ++ c0 :: c1 :: c2 :: rest) length pre.length =
      some [symbol (c0.toNat / 4), symbol (c0.toNat % 4 * 16 + c1.toNat / 16),
        symbol (c1.toNat % 16 * 4 + c2.toNat / 64), symbol (c2.toNat % 64)] := by
  have hk1 : pre.length + 1 ≤ length := by omega
  have h1 := loadUnlessPast_pre (c0 :: c1 :: c2 :: rest) hk1
  have hk2 : pre.length + 2 ≤ length := by omega
  have h2 := loadUnlessPast_pre (c0 :: c1 :: c2 :: rest) hk2
  obtain ⟨f4, f3, f2, f1⟩ := packed_fields c0 c1 c2
  have hpad2 : ¬ length < pre.length + 2 := by omega
  have hpad1 : ¬ length < pre.length + 3 := by omega
  simp [plainGroup, h1, h2, f4, f3, f2, f1, hpad2, hpad1]

/-- With two bytes left the third is the byte behind the string. -/
theorem plainGroup_two (pre : Bytes) (c0 c1 : UInt8) (h : length = pre.length + 2) :
    plainGroup (pre ++ c0 :: c1 :: rest) length pre.length = rest[0]?.map fun b =>
      [symbol (c0.toNat / 4), symbol (c0.toNat % 4 * 16 + c1.toNat / 16),
        symbol (c1.toNat % 16 * 4 + b.toNat / 64), 61] := by
  have hk1 : pre.length + 1 ≤ length := by omega
  have h1 := loadUnlessPast_pre (c0 :: c1 :: rest) hk1
  have hk2 : pre.length + 2 ≤ length := by omega
  have h2 := loadUnlessPast_pre (c0 :: c1 :: rest) hk2
  have hpad2 : ¬ length < pre.length + 2 := by omega
  have hpad1 : length < pre.length + 3 := by omega
  cases rest with
  | nil => simp [plainGroup, h1, h2]
  | cons b rest =>
      obtain ⟨f4, f3, f2, -⟩ := packed_fields c0 c1 b
      simp [plainGroup, h1, h2, f4, f3, f2, hpad2, hpad1]

/-- With one byte left the second is the byte behind the string. -/
theorem plainGroup_one (pre : Bytes) (c0 : UInt8) (h : length = pre.length + 1) :
    plainGroup (pre ++ c0 :: rest) length pre.length = rest[0]?.map fun b =>
      [symbol (c0.toNat / 4), symbol (c0.toNat % 4 * 16 + b.toNat / 16), 61, 61] := by
  have hk1 : pre.length + 1 ≤ length := by omega
  have h1 := loadUnlessPast_pre (c0 :: rest) hk1
  have h2 : loadUnlessPast (pre ++ c0 :: rest) length (pre.length + 2) = some 0 := by
    rw [loadUnlessPast, if_pos (by omega)]
  have hpad2 : length < pre.length + 2 := by omega
  have hpad1 : length < pre.length + 3 := by omega
  cases rest with
  | nil => simp [plainGroup, h1]
  | cons b rest =>
      obtain ⟨f4, f3, -, -⟩ := packed_fields c0 b 0
      simp [plainGroup, h1, h2, f4, f3, hpad2, hpad1]

end Groups

/-! ## Whole strings -/

/-- What the plain encoder writes for a string with the byte `b?` behind it. -/
def plainText (b? : Option UInt8) : Bytes → Option Bytes
  | c0 :: c1 :: c2 :: rest => (plainText b? rest).map fun text =>
      symbol (c0.toNat / 4) :: symbol (c0.toNat % 4 * 16 + c1.toNat / 16) ::
      symbol (c1.toNat % 16 * 4 + c2.toNat / 64) :: symbol (c2.toNat % 64) :: text
  | [c0, c1] => b?.map fun b =>
      [symbol (c0.toNat / 4), symbol (c0.toNat % 4 * 16 + c1.toNat / 16),
        symbol (c1.toNat % 16 * 4 + b.toNat / 64), 61]
  | [c0] => b?.map fun b =>
      [symbol (c0.toNat / 4), symbol (c0.toNat % 4 * 16 + b.toNat / 16), 61, 61]
  | [] => some []

theorem plainLoop_eq (b? : Option UInt8) (x pre rest : Bytes) (hb : rest[0]? = b?) :
    plainLoop (pre ++ (x ++ rest)) (pre.length + x.length) ((x.length + 2) / 3) pre.length =
      plainText b? x := by
  fun_induction plainText b? x generalizing pre with
  | case1 c0 c1 c2 x ih =>
      have hgroups : ((c0 :: c1 :: c2 :: x).length + 2) / 3 = (x.length + 2) / 3 + 1 := by
        simp only [List.length_cons]
        omega
      have hfit : pre.length + 3 ≤ pre.length + (c0 :: c1 :: c2 :: x).length := by simp
      have hgroup : plainGroup (pre ++ c0 :: c1 :: c2 :: (x ++ rest)) _ pre.length = _ :=
        plainGroup_three pre c0 c1 c2 hfit
      have htail := ih (pre ++ [c0, c1, c2])
      have hlen : (pre ++ [c0, c1, c2]).length + x.length =
          pre.length + (c0 :: c1 :: c2 :: x).length := by
        simp
        omega
      rw [List.append_assoc, hlen] at htail
      simp only [List.length_append, List.length_cons, List.length_nil, Nat.zero_add,
        Nat.reduceAdd, List.cons_append, List.nil_append] at htail
      rw [hgroups, plainLoop, List.cons_append, List.cons_append, List.cons_append, hgroup]
      simp only [List.length_cons, Option.bind_eq_bind, Option.bind_some, htail]
      cases plainText b? x <;> rfl
  | case2 c0 c1 =>
      have hgroup : plainGroup (pre ++ c0 :: c1 :: rest) _ pre.length = _ :=
        plainGroup_two pre c0 c1 rfl
      rw [hb] at hgroup
      have hloop : plainLoop (pre ++ c0 :: c1 :: rest) (pre.length + 2) 1 pre.length =
          plainGroup (pre ++ c0 :: c1 :: rest) (pre.length + 2) pre.length := by
        rw [plainLoop, hgroup]
        cases b? <;> rfl
      simpa using hloop.trans hgroup
  | case3 c0 =>
      have hgroup : plainGroup (pre ++ c0 :: rest) _ pre.length = _ := plainGroup_one pre c0 rfl
      rw [hb] at hgroup
      have hloop : plainLoop (pre ++ c0 :: rest) (pre.length + 1) 1 pre.length =
          plainGroup (pre ++ c0 :: rest) (pre.length + 1) pre.length := by
        rw [plainLoop, hgroup]
        cases b? <;> rfl
      simpa using hloop.trans hgroup
  | case4 => rfl

theorem base64e_eq (x rest : Bytes) : base64e (x ++ rest) x.length = plainText rest[0]? x := by
  have h := plainLoop_eq rest[0]? x [] rest rfl
  simpa [base64e] using h

/-- The text of complete groups is the one of the fast encoder. -/
theorem plainText_of_dvd (b? : Option UInt8) {x : Bytes} (h : 3 ∣ x.length) :
    plainText b? x = some (base64e2 x) := by
  fun_induction base64e2 x with
  | case1 c0 c1 c2 x ih =>
      have hlen : (c0 :: c1 :: c2 :: x).length = x.length + 3 := rfl
      have hx : 3 ∣ x.length := by omega
      simp only [plainText, ih hx, Option.map_some]
  | case2 c0 c1 => simp at h
  | case3 c0 => simp at h
  | case4 => rfl

/-- Without a byte behind it a string has a text when its last group is complete. -/
theorem plainText_none_iff (x : Bytes) : plainText none x = none ↔ ¬ 3 ∣ x.length := by
  fun_induction plainText none x with
  | case1 c0 c1 c2 x ih =>
      simp only [Option.map_eq_none_iff, ih, List.length_cons]
      omega
  | case2 c0 c1 => simp
  | case3 c0 => simp
  | case4 => simp

theorem symbol_inj {v w : Nat} (hv : v < 64) (hw : w < 64) (h : symbol v = symbol w) : v = w := by
  have hfield : mime.field v = mime.field w := congrArg (fun c => field6 (DecodeMimeBase64 c)) h
  rwa [field_mime v hv, field_mime w hw] at hfield

/-- The text is the one of the fast encoder when the byte behind the string brings no bit
into it. -/
theorem plainText_some_iff (b : UInt8) (x : Bytes) :
    plainText (some b) x = some (base64e2 x) ↔
      3 ∣ x.length ∨ x.length % 3 = 1 ∧ b.toNat < 16 ∨ x.length % 3 = 2 ∧ b.toNat < 64 := by
  fun_induction base64e2 x with
  | case1 c0 c1 c2 x ih =>
      have hlen : (c0 :: c1 :: c2 :: x).length = x.length + 3 := rfl
      have hdvd : 3 ∣ x.length + 3 ↔ 3 ∣ x.length := by omega
      rw [hlen, hdvd, Nat.add_mod_right, ← ih]
      simp only [plainText, Option.map_eq_some_iff, List.cons.injEq, true_and]
      simp
  | case2 c0 c1 =>
      have hb := b.toNat_lt
      have h2 : symbol (c1.toNat % 16 * 4 + b.toNat / 64) = symbol (c1.toNat % 16 * 4) ↔
          b.toNat < 64 := by
        constructor
        · intro h
          have heq := symbol_inj (by omega) (by omega) h
          omega
        · intro h
          rw [Nat.div_eq_of_lt h, Nat.add_zero]
      simp [plainText, h2]
  | case3 c0 =>
      have hb := b.toNat_lt
      have h3 : symbol (c0.toNat % 4 * 16 + b.toNat / 16) = symbol (c0.toNat % 4 * 16) ↔
          b.toNat < 16 := by
        constructor
        · intro h
          have heq := symbol_inj (by omega) (by omega) h
          omega
        · intro h
          rw [Nat.div_eq_of_lt h, Nat.add_zero]
      simp [plainText, h3]
  | case4 => simp [plainText]

/-- In a memory that goes on behind the string with the byte `b`. -/
theorem base64e_next_iff (x rest : Bytes) (b : UInt8) :
    base64e (x ++ b :: rest) x.length = some (base64e2 x) ↔
      3 ∣ x.length ∨ x.length % 3 = 1 ∧ b.toNat < 16 ∨ x.length % 3 = 2 ∧ b.toNat < 64 := by
  rw [base64e_eq]
  exact plainText_some_iff b x

/-- The plain encoder writes the text of the fast one, reading nothing behind the string,
precisely for the strings of complete groups. -/
theorem base64e_agrees_iff (x rest : Bytes) :
    (base64e (x ++ rest) x.length = some (base64e2 x) ∧ base64e x x.length ≠ none) ↔
      3 ∣ x.length := by
  have hown : base64e x x.length = plainText none x := by
    have h := base64e_eq x []
    rwa [List.append_nil] at h
  rw [hown, ne_eq, plainText_none_iff, not_not]
  constructor
  · intro h
    exact h.2
  · intro hdvd
    have htext := plainText_of_dvd rest[0]? hdvd
    rw [← base64e_eq] at htext
    exact ⟨htext, hdvd⟩

/-- The byte `A` with `B` behind it in memory. -/
theorem base64e_one_byte :
    base64e ([65] ++ [66]) 1 = some (ascii "QU==") ∧ base64e2 [65] = ascii "QQ==" ∧
      base64e [65] 1 = none ∧
      ¬ (base64e ([65] ++ [66]) 1 = some (base64e2 [65]) ∧ base64e [65] 1 ≠ none) := by
  decide +kernel

end Acu.Tools.Base64
