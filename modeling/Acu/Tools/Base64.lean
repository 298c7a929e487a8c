import Acu.Core.CMemory

/-! # Base64

The decoder used for photographs and the encoder used in request bodies. Both
work on bit fields laid over the bytes; the fields are written out here as
shifts and masks of the packed value.
-/

namespace Acu.Tools.Base64

open Acu.Core

def MimeBase64 : Bytes :=
  ascii "ABCDEFGHIJKLMNOPQRSTUVWXYZabcdefghijklmnopqrstuvwxyz0123456789+/"

def MimeBase64_http : Bytes :=
  ascii "ABCDEFGHIJKLMNOPQRSTUVWXYZabcdefghijklmnopqrstuvwxyz0123456789-/"

/-- `DecodeMimeBase64[c]`, a table of 256 entries. -/
def DecodeMimeBase64 (c : UInt8) : Int :=
  let n : Int := c.toNat
  if c = 43 then 62
  else if c = 47 then 63
  else if 48 ≤ c ∧ c ≤ 57 then n + 4
  else if 65 ≤ c ∧ c ≤ 90 then n - 65
  else if 97 ≤ c ∧ c ≤ 122 then n - 71
  else -1

/-- A value stored into an `unsigned int e:6` field. -/
def field6 (v : Int) : Nat := (v % 64).toNat

/-- `DecodeMimeBase64[src[i]]` stored into a field. With a signed `char` the bytes from
128 on index in front of the table. -/
def decodeField (signedChar : Bool) (m : Bytes) (i : Nat) : Option Nat := do
  let c ← m[i]?
  if signedChar && 128 ≤ c then none else some (field6 (DecodeMimeBase64 c))

/-- The last two fields of a group, where `=` stands for an absent byte. -/
def decodeBlank (signedChar : Bool) (m : Bytes) (i : Nat) : Option (Nat × Nat) := do
  let c ← m[i]?
  if c = 61 then some (0, 1)
  else
    let v ← decodeField signedChar m i
    some (v, 0)

/-- The loop of `base64d` over groups of four from position `i` on: `size` is the size of
the result buffer, `out` what was written and `blank` the count of `=`. -/
def decodeLoop (signedChar : Bool) (m : Bytes) (src size : Nat) :
    Nat → Nat → Bytes → Nat → Option (Bytes × Nat)
  | 0, _, out, blank => some (out, blank)
  | groups + 1, i, out, blank => do
      let e4 ← decodeField signedChar m (src + i)
      let e3 ← decodeField signedChar m (src + i + 1)
      let (e2, b2) ← decodeBlank signedChar m (src + i + 2)
      let (e1, b1) ← decodeBlank signedChar m (src + i + 3)
      let v := e1 + e2 * 64 + e3 * 4096 + e4 * 262144
      if out.length + 3 ≤ size then
        decodeLoop signedChar m src size groups (i + 4)
          (out ++ [(v / 65536).toUInt8, (v / 256).toUInt8, v.toUInt8]) (blank + b2 + b1)
      else none

/-- `if(src_length < 0) src_length = strlen(src)`. A text that fits beside its result into
32-bit addresses has a length that fits an `int`. -/
def srcLength (m : Bytes) (src : Nat) (src_length : Int) : Option Nat :=
  if src_length < 0 then CMemory.strlen m src else some src_length.toNat

/-- `base64d(src, src_length, result, &length)` with a result buffer of `size` bytes: the
bytes written and the reported length. -/
def base64d (signedChar : Bool) (m : Bytes) (src : Nat) (src_length : Int) (size : Nat) :
    Option (Bytes × Int) := do
  let n ← srcLength m src src_length
  let (out, blank) ← decodeLoop signedChar m src size ((n + 3) / 4) 0 [] 0
  some (out, (out.length : Int) - blank)

/-! ## What the decoder reads -/

section Reads

variable {signedChar : Bool} {v : Bytes}

theorem decodeField_behind (pre rest : Bytes) {k : Nat} (hk : k < v.length) :
    decodeField signedChar (pre ++ (v ++ rest)) (pre.length + k) = decodeField signedChar v k := by
  have hbyte : (pre ++ (v ++ rest))[pre.length + k]? = v[k]? := by
    rw [List.getElem?_append_right (by omega), Nat.add_sub_cancel_left,
      List.getElem?_append_left hk]
  rw [decodeField, decodeField, hbyte]

theorem decodeBlank_behind (pre rest : Bytes) {k : Nat} (hk : k < v.length) :
    decodeBlank signedChar (pre ++ (v ++ rest)) (pre.length + k) = decodeBlank signedChar v k := by
  have hbyte : (pre ++ (v ++ rest))[pre.length + k]? = v[k]? := by
    rw [List.getElem?_append_right (by omega), Nat.add_sub_cancel_left,
      List.getElem?_append_left hk]
  rw [decodeBlank, decodeBlank, hbyte, decodeField_behind pre rest hk]

/-- A text of whole groups is decoded alike wherever it stands. -/
theorem decodeLoop_behind (pre rest : Bytes) (size groups i : Nat) (out : Bytes) (blank : Nat)
    (h : i + 4 * groups ≤ v.length) :
    decodeLoop signedChar (pre ++ (v ++ rest)) pre.length size groups i out blank =
      decodeLoop signedChar v 0 size groups i out blank := by
  induction groups generalizing i out blank with
  | zero => rfl
  | succ groups ih =>
      have hfield : ∀ k, k < v.length → decodeField signedChar (pre ++ (v ++ rest))
          (pre.length + k) = decodeField signedChar v k := fun _ => decodeField_behind pre rest
      have hblank : ∀ k, k < v.length → decodeBlank signedChar (pre ++ (v ++ rest))
          (pre.length + k) = decodeBlank signedChar v k := fun _ => decodeBlank_behind pre rest
      have h4 := hfield i (by omega)
      have h3 := hfield (i + 1) (by omega)
      have h2 := hblank (i + 2) (by omega)
      have h1 := hblank (i + 3) (by omega)
      have hrec : ∀ out blank, decodeLoop signedChar (pre ++ (v ++ rest)) pre.length size groups
          (i + 4) out blank = decodeLoop signedChar v 0 size groups (i + 4) out blank :=
        fun out blank => ih (i + 4) out blank (by omega)
      simp only [decodeLoop, Nat.add_assoc, Nat.zero_add, h4, h3, h2, h1, hrec]

theorem base64d_behind (signedChar : Bool) (pre rest : Bytes) (size : Nat) (h4 : 4 ∣ v.length) :
    base64d signedChar (pre ++ (v ++ rest)) pre.length v.length size =
      base64d signedChar v 0 v.length size := by
  have hlen (m : Bytes) (p : Nat) : srcLength m p v.length = some v.length := by
    rw [srcLength, if_neg (by omega), Int.toNat_natCast]
  rw [base64d, base64d, hlen, hlen, Option.bind_eq_bind, Option.bind_some, Option.bind_eq_bind,
    Option.bind_some, decodeLoop_behind pre rest _ _ _ _ _ (by omega)]

/-- The byte at `i` is in the memory and indexes the table. -/
def Readable (signedChar : Bool) (m : Bytes) (i : Nat) : Prop :=
  ∃ c, m[i]? = some c ∧ (signedChar = true → c < 128)

theorem decodeField_isSome_iff (m : Bytes) (i : Nat) :
    (∃ e, decodeField signedChar m i = some e) ↔ Readable signedChar m i := by
  unfold decodeField Readable
  cases m[i]? with
  | none => simp
  | some c =>
      cases signedChar with
      | false => simp
      | true => by_cases hc : 128 ≤ c <;> simp [hc, ← UInt8.not_le]

/-- An `=` is a byte like others here: it is read, and is less than 128. -/
theorem decodeBlank_isSome_iff (m : Bytes) (i : Nat) :
    (∃ e, decodeBlank signedChar m i = some e) ↔ Readable signedChar m i := by
  rw [← decodeField_isSome_iff]
  unfold decodeBlank
  cases hbyte : m[i]? with
  | none => simp [decodeField, hbyte]
  | some c =>
      by_cases hc : c = 61
      · have hlt : ¬ (128 : UInt8) ≤ 61 := by decide
        subst hc
        simp [decodeField, hbyte, hlt]
      · simp only [Option.bind_eq_bind, Option.bind_some, if_neg hc]
        constructor
        · intro h
          rcases h with ⟨e, h⟩
          obtain ⟨v, hv, -⟩ := Option.bind_eq_some_iff.mp h
          exact ⟨v, hv⟩
        · intro h
          rcases h with ⟨v, hv⟩
          exact ⟨(v, 0), by rw [hv]; rfl⟩

/-- The loop ends well precisely when every byte of the groups can be read and there is room for
what is written. It then has written three bytes a group, and counted at most two blanks. -/
theorem decodeLoop_isSome_iff (m : Bytes) (src size groups i : Nat) (out : Bytes) (blank : Nat) :
    (∃ r, decodeLoop signedChar m src size groups i out blank = some r) ↔
      (∀ k < 4 * groups, Readable signedChar m (src + i + k)) ∧
        (groups = 0 ∨ out.length + 3 * groups ≤ size) := by
  induction groups generalizing i out blank with
  | zero => simp [decodeLoop]
  | succ groups ih =>
      have hfour : (∀ k < 4 * (groups + 1), Readable signedChar m (src + i + k)) ↔
          Readable signedChar m (src + i) ∧ Readable signedChar m (src + i + 1) ∧
            Readable signedChar m (src + i + 2) ∧ Readable signedChar m (src + i + 3) ∧
              ∀ k < 4 * groups, Readable signedChar m (src + (i + 4) + k) := by
        constructor
        · intro h
          refine ⟨h 0 (by omega), h 1 (by omega), h 2 (by omega), h 3 (by omega),
            fun k hk => ?_⟩
          rw [show src + (i + 4) + k = src + i + (k + 4) by omega]
          exact h (k + 4) (by omega)
        · intro h k hk
          rcases h with ⟨h0, h1, h2, h3, h⟩
          rcases Nat.lt_or_ge k 4 with hlt | hge
          · match k, hlt with
            | 0, _ => exact h0
            | 1, _ => exact h1
            | 2, _ => exact h2
            | 3, _ => exact h3
          · have hk4 := h (k - 4) (by omega)
            rwa [show src + (i + 4) + (k - 4) = src + i + k by omega] at hk4
      rw [hfour, ← decodeField_isSome_iff, ← decodeField_isSome_iff, ← decodeBlank_isSome_iff,
        ← decodeBlank_isSome_iff]
      constructor
      · intro h
        rcases h with ⟨r, h⟩
        rw [decodeLoop] at h
        obtain ⟨e4, h4, h⟩ := Option.bind_eq_some_iff.mp h
        obtain ⟨e3, h3, h⟩ := Option.bind_eq_some_iff.mp h
        obtain ⟨⟨e2, b2⟩, h2, h⟩ := Option.bind_eq_some_iff.mp h
        obtain ⟨⟨e1, b1⟩, h1, h⟩ := Option.bind_eq_some_iff.mp h
        dsimp only at h
        split at h
        · obtain ⟨hrest, hsize⟩ := (ih _ _ _).mp ⟨r, h⟩
          refine ⟨⟨⟨e4, h4⟩, ⟨e3, h3⟩, ⟨_, h2⟩, ⟨_, h1⟩, hrest⟩, .inr ?_⟩
          simp only [List.length_append, List.length_cons, List.length_nil] at hsize
          omega
        · cases h
      · intro h
        rcases h with ⟨⟨⟨e4, h4⟩, ⟨e3, h3⟩, ⟨e2, h2⟩, ⟨e1, h1⟩, hrest⟩, hsize⟩
        have hroom : out.length + 3 ≤ size := by omega
        simp only [decodeLoop, h4, h3, h2, h1, Option.bind_eq_bind, Option.bind_some, if_pos hroom]
        refine (ih _ _ _).mpr ⟨hrest, ?_⟩
        simp only [List.length_append, List.length_cons, List.length_nil]
        omega

theorem decodeBlank_le {m : Bytes} {i : Nat} {e : Nat × Nat}
    (h : decodeBlank signedChar m i = some e) : e.2 ≤ 1 := by
  unfold decodeBlank at h
  obtain ⟨c, -, h⟩ := Option.bind_eq_some_iff.mp h
  split at h
  · cases h
    exact Nat.le_refl 1
  · obtain ⟨v, -, h⟩ := Option.bind_eq_some_iff.mp h
    cases h
    exact Nat.zero_le 1

theorem decodeLoop_counts {m : Bytes} {src size groups i : Nat} {out : Bytes} {blank : Nat}
    {r : Bytes × Nat} (h : decodeLoop signedChar m src size groups i out blank = some r) :
    r.1.length = out.length + 3 * groups ∧ r.2 ≤ blank + 2 * groups := by
  induction groups generalizing i out blank with
  | zero =>
      cases h
      exact ⟨rfl, Nat.le_refl blank⟩
  | succ groups ih =>
      rw [decodeLoop] at h
      obtain ⟨e4, -, h⟩ := Option.bind_eq_some_iff.mp h
      obtain ⟨e3, -, h⟩ := Option.bind_eq_some_iff.mp h
      obtain ⟨⟨e2, b2⟩, h2, h⟩ := Option.bind_eq_some_iff.mp h
      obtain ⟨⟨e1, b1⟩, h1, h⟩ := Option.bind_eq_some_iff.mp h
      have hb2 := decodeBlank_le h2
      have hb1 := decodeBlank_le h1
      dsimp only at h hb2 hb1
      split at h
      · obtain ⟨hlength, hblank⟩ := ih h
        simp only [List.length_append, List.length_cons, List.length_nil] at hlength
        omega
      · cases h

/-- A call with a length: the bytes of its groups are read, and the last of them may stand behind
the text. -/
theorem base64d_isSome_iff (m : Bytes) (src n size : Nat) :
    (∃ r, base64d signedChar m src n size = some r) ↔
      (∀ k < 4 * ((n + 3) / 4), Readable signedChar m (src + k)) ∧
        (n = 0 ∨ 3 * ((n + 3) / 4) ≤ size) := by
  have hlen : srcLength m src n = some n := by
    rw [srcLength, if_neg (by omega), Int.toNat_natCast]
  have hgroups : (n + 3) / 4 = 0 ↔ n = 0 := by omega
  have hloop := @decodeLoop_isSome_iff signedChar m src size ((n + 3) / 4) 0 [] 0
  simp only [Nat.add_zero, List.length_nil, Nat.zero_add, hgroups] at hloop
  rw [← hloop, base64d, hlen, Option.bind_eq_bind, Option.bind_some]
  cases decodeLoop signedChar m src size ((n + 3) / 4) 0 [] 0 with
  | none => simp
  | some r => simp

/-- The reported length is never more than what was written. -/
theorem base64d_counts {m : Bytes} {src n size : Nat} {r : Bytes × Int}
    (h : base64d signedChar m src n size = some r) :
    0 ≤ r.2 ∧ r.2 ≤ r.1.length := by
  rw [base64d] at h
  obtain ⟨n', -, h⟩ := Option.bind_eq_some_iff.mp h
  obtain ⟨w, hloop, h⟩ := Option.bind_eq_some_iff.mp h
  have hcounts := decodeLoop_counts hloop
  rw [List.length_nil, Nat.zero_add, Nat.zero_add] at hcounts
  cases h
  constructor
  · change 0 ≤ (w.1.length : Int) - w.2
    omega
  · change (w.1.length : Int) - w.2 ≤ w.1.length
    omega

/-- A text of whole groups is decoded into as many bytes as it has. -/
theorem base64d_isSome (hchar : signedChar = true → ∀ c ∈ v, c < 128) (h4 : 4 ∣ v.length) :
    ∃ r, base64d signedChar v 0 v.length v.length = some r := by
  refine (base64d_isSome_iff v 0 v.length v.length).mpr ⟨fun k hk => ?_, by omega⟩
  rw [Nat.zero_add]
  have hlt : k < v.length := by omega
  exact ⟨v[k], List.getElem?_eq_getElem hlt, fun h => hchar h v[k] (List.getElem_mem hlt)⟩

end Reads

/-! ## The encoders -/

/-- `*o++ = MimeBase64[...]` of the six-bit value `v`. -/
def symbol (v : Nat) : UInt8 := MimeBase64.getD v 0

/-- `base64e2`, the bytes written before the final NUL. -/
def base64e2 : Bytes → Bytes
  | c0 :: c1 :: c2 :: rest =>
      symbol (c0.toNat / 4) ::
      symbol (c0.toNat % 4 * 16 + c1.toNat / 16) ::
      symbol (c1.toNat % 16 * 4 + c2.toNat / 64) ::
      symbol (c2.toNat % 64) :: base64e2 rest
  | [c0, c1] =>
      [symbol (c0.toNat / 4), symbol (c0.toNat % 4 * 16 + c1.toNat / 16),
        symbol (c1.toNat % 16 * 4), 61]
  | [c0] => [symbol (c0.toNat / 4), symbol (c0.toNat % 4 * 16), 61, 61]
  | [] => []

/-- `*o++ = MimeBase64_http[...]` of the six-bit value `v`. -/
def symbol_http (v : Nat) : UInt8 := MimeBase64_http.getD v 0

/-- `base64e2_http`, the bytes written before the final NUL. -/
def base64e2_http : Bytes → Bytes
  | c0 :: c1 :: c2 :: rest =>
      symbol_http (c0.toNat / 4) ::
      symbol_http (c0.toNat % 4 * 16 + c1.toNat / 16) ::
      symbol_http (c1.toNat % 16 * 4 + c2.toNat / 64) ::
      symbol_http (c2.toNat % 64) :: base64e2_http rest
  | [c0, c1] =>
      [symbol_http (c0.toNat / 4), symbol_http (c0.toNat % 4 * 16 + c1.toNat / 16),
        symbol_http (c1.toNat % 16 * 4), 61]
  | [c0] => [symbol_http (c0.toNat / 4), symbol_http (c0.toNat % 4 * 16), 61, 61]
  | [] => []

end Acu.Tools.Base64
