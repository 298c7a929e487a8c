import Acu.Tools.Base64

/-! # The decoder on encoded texts

`base64d` reads a text back group by group. With the alphabet its table is made
for it gives back every byte string; with the alphabet of the request bodies it
gives back those without the one six-bit group the two alphabets write differently.
-/

namespace Acu.Tools.Base64

open Acu.Core

/-- Symbols for the six-bit groups that neither end a string nor stand for padding. -/
structure Alphabet where
  sym : Nat → UInt8
  plain : ∀ v < 64, sym v ≠ 0 ∧ sym v ≠ 61 ∧ sym v < 128

def mime : Alphabet where
  sym := symbol
  plain := by decide +kernel

def http : Alphabet where
  sym := symbol_http
  plain := by decide +kernel

namespace Alphabet

variable (a : Alphabet)

def encode : Bytes → Bytes
  | c0 :: c1 :: c2 :: rest =>
      a.sym (c0.toNat / 4) :: a.sym (c0.toNat % 4 * 16 + c1.toNat / 16) ::
      a.sym (c1.toNat % 16 * 4 + c2.toNat / 64) :: a.sym (c2.toNat % 64) :: encode rest
  | [c0, c1] =>
      [a.sym (c0.toNat / 4), a.sym (c0.toNat % 4 * 16 + c1.toNat / 16),
        a.sym (c1.toNat % 16 * 4), 61]
  | [c0] => [a.sym (c0.toNat / 4), a.sym (c0.toNat % 4 * 16), 61, 61]
  | [] => []

/-- The field the decoder reads from the symbol of `v`. -/
def field (v : Nat) : Nat := field6 (DecodeMimeBase64 (a.sym v))

end Alphabet

/-- The bytes `c3`, `c2`, `c1` over the fields `e4`, `e3`, `e2`, `e1`. -/
def unpack (e4 e3 e2 e1 : Nat) : Bytes :=
  let v := e1 + e2 * 64 + e3 * 4096 + e4 * 262144
  [(v / 65536).toUInt8, (v / 256).toUInt8, v.toUInt8]

/-- What the decoder writes for the text of a byte string. -/
def Alphabet.decoded (a : Alphabet) : Bytes → Bytes
  | c0 :: c1 :: c2 :: rest =>
      unpack (a.field (c0.toNat / 4)) (a.field (c0.toNat % 4 * 16 + c1.toNat / 16))
        (a.field (c1.toNat % 16 * 4 + c2.toNat / 64)) (a.field (c2.toNat % 64)) ++ decoded a rest
  | [c0, c1] =>
      unpack (a.field (c0.toNat / 4)) (a.field (c0.toNat % 4 * 16 + c1.toNat / 16))
        (a.field (c1.toNat % 16 * 4)) 0
  | [c0] => unpack (a.field (c0.toNat / 4)) (a.field (c0.toNat % 4 * 16)) 0 0
  | [] => []

/-- The six-bit groups of a byte string, the last ones filled up with zero bits. -/
def sextets : Bytes → List Nat
  | c0 :: c1 :: c2 :: rest =>
      c0.toNat / 4 :: (c0.toNat % 4 * 16 + c1.toNat / 16) ::
      (c1.toNat % 16 * 4 + c2.toNat / 64) :: c2.toNat % 64 :: sextets rest
  | [c0, c1] => [c0.toNat / 4, c0.toNat % 4 * 16 + c1.toNat / 16, c1.toNat % 16 * 4]
  | [c0] => [c0.toNat / 4, c0.toNat % 4 * 16]
  | [] => []

theorem base64e2_eq (x : Bytes) : base64e2 x = mime.encode x := by
  fun_induction base64e2 x <;> simp [Alphabet.encode, mime, *]

theorem base64e2_http_eq (x : Bytes) : base64e2_http x = http.encode x := by
  fun_induction base64e2_http x <;> simp [Alphabet.encode, http, *]

/-! ## One group -/

section Group

variable {a : Alphabet}

theorem Alphabet.field_lt (v : Nat) : a.field v < 64 := by
  unfold Alphabet.field field6
  omega

theorem decodeField_sym (sc : Bool) {m : Bytes} {i v : Nat} (hv : v < 64)
    (h : m[i]? = some (a.sym v)) : decodeField sc m i = some (a.field v) := by
  have hlt : ¬ 128 ≤ a.sym v := UInt8.not_le.mpr (a.plain v hv).2.2
  simp [decodeField, h, hlt, Alphabet.field]

theorem decodeBlank_sym {sc : Bool} {m : Bytes} {i v : Nat} (hv : v < 64)
    (h : m[i]? = some (a.sym v)) : decodeBlank sc m i = some (a.field v, 0) := by
  have hne : a.sym v ≠ 61 := (a.plain v hv).2.1
  simp [decodeBlank, h, hne, decodeField_sym sc hv h]

theorem decodeBlank_pad (sc : Bool) {m : Bytes} {i : Nat} (h : m[i]? = some 61) :
    decodeBlank sc m i = some (0, 1) := by
  simp [decodeBlank, h]

/-- Three bytes are given back when the four fields are their groups, and only then. -/
theorem unpack_eq_iff {e4 e3 e2 e1 : Nat} (h4 : e4 < 64) (h3 : e3 < 64) (h2 : e2 < 64)
    (h1 : e1 < 64) (c0 c1 c2 : UInt8) :
    unpack e4 e3 e2 e1 = [c0, c1, c2] ↔
      e4 = c0.toNat / 4 ∧ e3 = c0.toNat % 4 * 16 + c1.toNat / 16 ∧
      e2 = c1.toNat % 16 * 4 + c2.toNat / 64 ∧ e1 = c2.toNat % 64 := by
  have b0 := c0.toNat_lt
  have b1 := c1.toNat_lt
  have b2 := c2.toNat_lt
  simp only [unpack, List.cons.injEq, and_true, ← UInt8.toNat_inj]
  simp only [Nat.toUInt8_eq, UInt8.toNat_ofNat']
  omega

theorem getElem?_behind {pre l : Bytes} {n : Nat} (h : n = pre.length) (k : Nat) :
    (pre ++ l)[n + k]? = l[k]? := by
  rw [List.getElem?_append_right (by omega)]
  simp [h]

theorem unpack_two_iff {e4 e3 : Nat} (h4 : e4 < 64) (h3 : e3 < 64) (c0 c1 : UInt8) :
    (unpack e4 e3 (c1.toNat % 16 * 4) 0).take 2 = [c0, c1] ↔
      e4 = c0.toNat / 4 ∧ e3 = c0.toNat % 4 * 16 + c1.toNat / 16 := by
  have b0 := c0.toNat_lt
  have b1 := c1.toNat_lt
  simp only [unpack, List.take_succ_cons, List.take_zero, List.cons.injEq, and_true,
    ← UInt8.toNat_inj]
  simp only [Nat.toUInt8_eq, UInt8.toNat_ofNat']
  omega

theorem unpack_one_iff {e4 : Nat} (h4 : e4 < 64) (c0 : UInt8) :
    (unpack e4 (c0.toNat % 4 * 16) 0 0).take 1 = [c0] ↔ e4 = c0.toNat / 4 := by
  have b0 := c0.toNat_lt
  simp only [unpack, List.take_succ_cons, List.take_zero, List.cons.injEq, and_true,
    ← UInt8.toNat_inj]
  simp only [Nat.toUInt8_eq, UInt8.toNat_ofNat']
  omega

/-- One round of the loop, at a group whose last two symbols may be padding. -/
theorem decodeLoop_group {sc : Bool} {pre out : Bytes} {src size i e2 b2 e1 b1 : Nat}
    {s2 s1 : UInt8} (v4 v3 : Nat) (hi : src + i = pre.length) (h4 : v4 < 64) (h3 : v3 < 64)
    (h2 : ∀ m k, m[k]? = some s2 → decodeBlank sc m k = some (e2, b2))
    (h1 : ∀ m k, m[k]? = some s1 → decodeBlank sc m k = some (e1, b1))
    (hsize : out.length + 3 ≤ size) (groups blank : Nat) (tail : Bytes) :
    decodeLoop sc (pre ++ (a.sym v4 :: a.sym v3 :: s2 :: s1 :: tail)) src size (groups + 1) i out
        blank =
      decodeLoop sc (pre ++ [a.sym v4, a.sym v3, s2, s1] ++ tail) src size groups (i + 4)
        (out ++ unpack (a.field v4) (a.field v3) e2 e1) (blank + b2 + b1) := by
  have r4 := decodeField_sym (a := a) sc h4
    (getElem?_behind (l := a.sym v4 :: a.sym v3 :: s2 :: s1 :: tail) hi 0)
  have r3 := decodeField_sym (a := a) sc h3
    (getElem?_behind (l := a.sym v4 :: a.sym v3 :: s2 :: s1 :: tail) hi 1)
  have r2 := h2 _ _ (getElem?_behind (l := a.sym v4 :: a.sym v3 :: s2 :: s1 :: tail) hi 2)
  have r1 := h1 _ _ (getElem?_behind (l := a.sym v4 :: a.sym v3 :: s2 :: s1 :: tail) hi 3)
  rw [Nat.add_zero] at r4
  simp [decodeLoop, r4, r3, r2, r1, hsize, unpack]

end Group

/-! ## A whole text -/

section Text

variable (a : Alphabet)

theorem encode_length (x : Bytes) : (a.encode x).length = (x.length + 2) / 3 * 4 := by
  fun_induction Alphabet.encode a x with
  | case1 c0 c1 c2 rest ih =>
      simp only [List.length_cons, ih]
      omega
  | case2 => simp
  | case3 => simp
  | case4 => rfl

theorem decoded_length (x : Bytes) : (a.decoded x).length = (x.length + 2) / 3 * 3 := by
  fun_induction Alphabet.decoded a x with
  | case1 c0 c1 c2 rest ih =>
      simp only [unpack, List.length_append, List.length_cons, List.length_nil, ih]
      omega
  | case2 => simp [unpack]
  | case3 => simp [unpack]
  | case4 => rfl

/-- The loop over the text of `x`, at any place of the memory. -/
theorem decodeLoop_encode (sc : Bool) (x pre tail out : Bytes) {src i size : Nat} (blank : Nat)
    (hi : src + i = pre.length) (hsize : out.length + (x.length + 2) / 3 * 3 ≤ size) :
    decodeLoop sc (pre ++ (a.encode x ++ tail)) src size ((x.length + 2) / 3) i out blank =
      some (out ++ a.decoded x, blank + (3 - x.length % 3) % 3) := by
  fun_induction Alphabet.encode a x generalizing pre out i with
  | case1 c0 c1 c2 rest ih =>
      have b0 := c0.toNat_lt
      have b1 := c1.toNat_lt
      have b2 := c2.toNat_lt
      have hgroups : ((c0 :: c1 :: c2 :: rest).length + 2) / 3 = (rest.length + 2) / 3 + 1 := by
        simp only [List.length_cons]
        omega
      have hmod : (c0 :: c1 :: c2 :: rest).length % 3 = rest.length % 3 := by
        simp only [List.length_cons]
        omega
      have h2 : c1.toNat % 16 * 4 + c2.toNat / 64 < 64 := by omega
      have h1 : c2.toNat % 64 < 64 := by omega
      rw [hgroups] at hsize ⊢
      simp only [List.cons_append]
      rw [hmod, decodeLoop_group _ _ hi (by omega) (by omega) (fun _ _ => decodeBlank_sym h2)
        (fun _ _ => decodeBlank_sym h1) (by omega)]
      have hrest := ih (pre ++ [a.sym (c0.toNat / 4), a.sym (c0.toNat % 4 * 16 + c1.toNat / 16),
        a.sym (c1.toNat % 16 * 4 + c2.toNat / 64), a.sym (c2.toNat % 64)])
        (out ++ unpack (a.field (c0.toNat / 4)) (a.field (c0.toNat % 4 * 16 + c1.toNat / 16))
          (a.field (c1.toNat % 16 * 4 + c2.toNat / 64)) (a.field (c2.toNat % 64)))
        (i := i + 4) (by simp; omega) (by simp [unpack]; omega)
      simpa [Alphabet.decoded] using hrest
  | case2 c0 c1 =>
      have b0 := c0.toNat_lt
      have b1 := c1.toNat_lt
      have h2 : c1.toNat % 16 * 4 < 64 := by omega
      have hgroup := decodeLoop_group (a := a) (c0.toNat / 4)
        (c0.toNat % 4 * 16 + c1.toNat / 16) hi (by omega) (by omega)
        (fun _ _ => decodeBlank_sym (a := a) h2) (fun _ _ => decodeBlank_pad sc)
        (by simpa using hsize) 0 blank tail
      simpa [decodeLoop, Alphabet.decoded] using hgroup
  | case3 c0 =>
      have b0 := c0.toNat_lt
      have hgroup := decodeLoop_group (a := a) (c0.toNat / 4) (c0.toNat % 4 * 16) hi
        (by omega) (by omega)
        (fun _ _ => decodeBlank_pad sc) (fun _ _ => decodeBlank_pad sc)
        (by simpa using hsize) 0 blank tail
      simpa [decodeLoop, Alphabet.decoded] using hgroup
  | case4 => simp [decodeLoop, Alphabet.decoded]

theorem nul_not_mem_encode (x : Bytes) : 0 ∉ a.encode x := by
  fun_induction Alphabet.encode a x with
  | case1 c0 c1 c2 rest ih =>
      have b0 := c0.toNat_lt
      have b1 := c1.toNat_lt
      have b2 := c2.toNat_lt
      have h4 := (a.plain (c0.toNat / 4) (by omega)).1.symm
      have h3 := (a.plain (c0.toNat % 4 * 16 + c1.toNat / 16) (by omega)).1.symm
      have h2 := (a.plain (c1.toNat % 16 * 4 + c2.toNat / 64) (by omega)).1.symm
      have h1 := (a.plain (c2.toNat % 64) (by omega)).1.symm
      simp [h4, h3, h2, h1, ih]
  | case2 c0 c1 =>
      have b0 := c0.toNat_lt
      have b1 := c1.toNat_lt
      have h4 := (a.plain (c0.toNat / 4) (by omega)).1.symm
      have h3 := (a.plain (c0.toNat % 4 * 16 + c1.toNat / 16) (by omega)).1.symm
      have h2 := (a.plain (c1.toNat % 16 * 4) (by omega)).1.symm
      simp [h4, h3, h2]
  | case3 c0 =>
      have b0 := c0.toNat_lt
      have h4 := (a.plain (c0.toNat / 4) (by omega)).1.symm
      have h3 := (a.plain (c0.toNat % 4 * 16) (by omega)).1.symm
      simp [h4, h3]
  | case4 => simp

/-- Both calling forms on the text of `x`: what is written and the length reported. -/
theorem base64d_encode (sc : Bool) (x pre rest : Bytes) {src_length : Int} {size : Nat}
    (hform : src_length = (a.encode x).length ∨ src_length < 0)
    (hsize : (x.length + 2) / 3 * 3 ≤ size) :
    base64d sc (pre ++ (a.encode x ++ 0 :: rest)) pre.length src_length size =
      some (a.decoded x, (x.length : Int)) := by
  have hn : srcLength (pre ++ (a.encode x ++ 0 :: rest)) pre.length src_length =
      some (a.encode x).length := by
    cases hform with
    | inl h =>
        rw [h, srcLength, if_neg (by omega)]
        rfl
    | inr h =>
        rw [srcLength, if_pos h, CMemory.strlen, CMemory.stringAt, List.drop_left,
          CMemory.cstring_append_nul _ _ (nul_not_mem_encode a x)]
        rfl
  have hgroups : ((a.encode x).length + 3) / 4 = (x.length + 2) / 3 := by
    rw [encode_length]
    omega
  have hloop := decodeLoop_encode a sc x pre (0 :: rest) [] (i := 0) 0 rfl (by simpa using hsize)
  have hlen : ((a.decoded x).length : Int) - ((3 - x.length % 3) % 3 : Nat) = x.length := by
    rw [decoded_length]
    omega
  simp only [List.nil_append, Nat.zero_add] at hloop
  simp only [base64d, hn, Option.bind_eq_bind, Option.bind_some, hgroups, hloop, hlen]

/-- The written bytes start with `x` when every group of `x` is read as it was written,
and only then; the groups filled up with zero bits are multiples of four. -/
theorem take_decoded_eq_iff (hround : ∀ v < 64, 4 ∣ v → a.field v = v) (x : Bytes) :
    (a.decoded x).take x.length = x ↔ ∀ v ∈ sextets x, a.field v = v := by
  fun_induction Alphabet.decoded a x with
  | case1 c0 c1 c2 rest ih =>
      have hgroup := unpack_eq_iff (a.field_lt (c0.toNat / 4))
        (a.field_lt (c0.toNat % 4 * 16 + c1.toNat / 16))
        (a.field_lt (c1.toNat % 16 * 4 + c2.toNat / 64)) (a.field_lt (c2.toNat % 64)) c0 c1 c2
      have hsplit (l : Bytes) (g : Bytes) (hg : g.length = 3) :
          (g ++ l).take (c0 :: c1 :: c2 :: rest).length = c0 :: c1 :: c2 :: rest ↔
            g = [c0, c1, c2] ∧ l.take rest.length = rest := by
        have htake : (g ++ l).take (c0 :: c1 :: c2 :: rest).length = g ++ l.take rest.length := by
          rw [List.take_append, List.take_of_length_le (by simp; omega)]
          simp [hg]
        rw [htake]
        constructor
        · intro h
          have hcut : g ++ l.take rest.length = [c0, c1, c2] ++ rest := h
          exact List.append_inj hcut (by simp [hg])
        · intro h
          rw [h.1, h.2]
          rfl
      rw [hsplit _ _ rfl, hgroup, ih]
      simp only [sextets, List.forall_mem_cons]
      tauto
  | case2 c0 c1 =>
      have b1 := c1.toNat_lt
      have h2 := hround (c1.toNat % 16 * 4) (by omega) (by omega)
      have hgroup := unpack_two_iff (a.field_lt (c0.toNat / 4))
        (a.field_lt (c0.toNat % 4 * 16 + c1.toNat / 16)) c0 c1
      simp only [h2, List.length_cons, List.length_nil, Nat.zero_add, Nat.reduceAdd, hgroup,
        sextets, List.forall_mem_cons]
      simp
  | case3 c0 =>
      have b0 := c0.toNat_lt
      have h3 := hround (c0.toNat % 4 * 16) (by omega) (by omega)
      have hgroup := unpack_one_iff (a.field_lt (c0.toNat / 4)) c0
      simp only [h3, List.length_cons, List.length_nil, Nat.zero_add, hgroup, sextets,
        List.forall_mem_cons]
      simp
  | case4 => simp [sextets]

end Text

/-! ## Round trips -/

/-- A call of `base64d` gave back the bytes `x`. -/
def GivesBack (r : Option (Bytes × Int)) (x : Bytes) : Prop :=
  ∃ out, r = some (out, (x.length : Int)) ∧ out.take x.length = x

theorem field_mime : ∀ v < 64, mime.field v = v := by decide +kernel

theorem field_http : ∀ v < 64, http.field v = if v = 62 then 63 else v := by decide +kernel

theorem sextets_lt (x : Bytes) : ∀ v ∈ sextets x, v < 64 := by
  fun_induction sextets x with
  | case1 c0 c1 c2 rest ih =>
      have b0 := c0.toNat_lt
      have b1 := c1.toNat_lt
      have b2 := c2.toNat_lt
      simp only [List.forall_mem_cons]
      exact ⟨by omega, by omega, by omega, by omega, ih⟩
  | case2 c0 c1 =>
      have b0 := c0.toNat_lt
      have b1 := c1.toNat_lt
      simp only [List.forall_mem_cons]
      exact ⟨by omega, by omega, by omega, by simp⟩
  | case3 c0 =>
      have b0 := c0.toNat_lt
      simp only [List.forall_mem_cons]
      exact ⟨by omega, by omega, by simp⟩
  | case4 => simp

/-- The decoder gives back every byte string from its text, wherever the text stands in the
memory, with the length given or asked for. -/
theorem base64d_base64e2 (signedChar : Bool) (x pre rest : Bytes) (src_length : Int) (size : Nat)
    (hform : src_length = (base64e2 x).length ∨ src_length < 0)
    (hsize : (x.length + 2) / 3 * 3 ≤ size) :
    GivesBack (base64d signedChar (pre ++ (base64e2 x ++ 0 :: rest)) pre.length src_length size)
      x := by
  rw [base64e2_eq] at hform ⊢
  have hd := base64d_encode mime signedChar x pre rest hform hsize
  have hx := take_decoded_eq_iff mime (fun v hv _ => field_mime v hv) x
  exact ⟨_, hd, hx.mpr fun v hv => field_mime v (sextets_lt x v hv)⟩

theorem base64d_base64e2_five :
    GivesBack (base64d false (base64e2 [251, 239, 190, 0, 255] ++ [0]) 0 (-1) 6)
      [251, 239, 190, 0, 255] :=
  base64d_base64e2 false [251, 239, 190, 0, 255] [] [] (-1) 6 (.inr (by decide)) (by decide)

/-- The text of a request body is given back by the decoder precisely when no six-bit group
of the bytes is the one written `-`. -/
theorem base64d_base64e2_http_iff (signedChar : Bool) (x pre rest : Bytes) (src_length : Int)
    (size : Nat) (hform : src_length = (base64e2_http x).length ∨ src_length < 0)
    (hsize : (x.length + 2) / 3 * 3 ≤ size) :
    GivesBack (base64d signedChar (pre ++ (base64e2_http x ++ 0 :: rest)) pre.length src_length
      size) x ↔ 62 ∉ sextets x := by
  rw [base64e2_http_eq] at hform ⊢
  have hd := base64d_encode http signedChar x pre rest hform hsize
  have hround : ∀ v < 64, 4 ∣ v → http.field v = v := by
    intro v hv h4
    rw [field_http v hv, if_neg (by omega)]
  have hx := take_decoded_eq_iff http hround x
  have hfields : (∀ v ∈ sextets x, http.field v = v) ↔ 62 ∉ sextets x := by
    constructor
    · intro h hm
      have h62 := h 62 hm
      rw [field_http 62 (by decide)] at h62
      simp at h62
    · intro h v hv
      have hne : v ≠ 62 := fun he => h (he ▸ hv)
      rw [field_http v (sextets_lt x v hv), if_neg hne]
  rw [← hfields, ← hx, hd]
  simp [GivesBack]

theorem base64d_base64e2_http_three :
    GivesBack (base64d false (base64e2_http [77, 97, 110] ++ [0]) 0 4 3) [77, 97, 110] :=
  (base64d_base64e2_http_iff false [77, 97, 110] [] [] 4 3 (.inl rfl) (by decide)).mpr (by decide)

/-- The byte `F8` comes back as `FC`. -/
theorem base64d_base64e2_http_f8 :
    base64e2_http [248] = ascii "-A==" ∧
      base64d false (base64e2_http [248] ++ [0]) 0 4 3 = some ([252, 0, 0], 1) ∧
      ¬ GivesBack (base64d false (base64e2_http [248] ++ [0]) 0 4 3) [248] := by
  have hread : base64d false (base64e2_http [248] ++ [0]) 0 4 3 = some ([252, 0, 0], 1) := by
    decide +kernel
  refine ⟨by decide +kernel, hread, ?_⟩
  intro h
  rcases h with ⟨out, hout, htake⟩
  rw [hread] at hout
  cases hout
  revert htake
  decide

end Acu.Tools.Base64
