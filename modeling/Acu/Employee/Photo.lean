import Acu.Core.Search
import Acu.Employee.Parser

/-!
# The photograph of an employee

The text of a PHOTO_IMAGE is decoded into a buffer of its own length. The decoder takes
four bytes at a time and writes three for them, also where less than four are left: it
then reads behind the NUL and may write behind the buffer.
-/

namespace Acu.Employee

open Acu.Core Acu.Core.CMemory Tools

/-- `base64d` as `fillEmployeeInfo` calls it on the string at `p`: the result buffer has the
length of the string. -/
def decodePhoto (signedChar : Bool) (mem : Bytes) (p : Nat) : Option (Bytes × Int) := do
  let length ← strlen mem p
  Base64.base64d signedChar mem p length length

theorem Cursor.photoImage_eq (signedChar : Bool) :
    Cursor.photoImage signedChar = Cursor.element "PHOTO_IMAGE" fun mem p ei =>
      (decodePhoto signedChar mem p).bind fun (img, size) =>
        some { ei with img_buf := some img, img_size := size } := by
  have huse (mem : Bytes) (p : Nat) (ei : EmployeeInfo) :
      (do
        let length ← strlen mem p
        let (img, size) ← Base64.base64d signedChar mem p length length
        some { ei with img_buf := some img, img_size := size }) =
      (decodePhoto signedChar mem p).bind fun (img, size) =>
        some { ei with img_buf := some img, img_size := size } := by
    rw [decodePhoto]
    cases strlen mem p with
    | none => rfl
    | some length => rfl
  unfold Cursor.photoImage
  simp only [huse]

/-- The text is decoded from its bytes and its NUL alone, whatever stands around them, inside the
result buffer, and no more is reported than was written. A byte outside the table is one that
cannot be read. -/
def DecodedInside (signedChar : Bool) (src : Bytes) : Prop :=
  ∃ result length, (∀ pre rest : Bytes,
      decodePhoto signedChar (pre ++ (src ++ 0 :: rest)) pre.length = some (result, length)) ∧
    0 ≤ length ∧ length ≤ result.length

section Decode

variable {signedChar : Bool} {src : Bytes}

theorem decodePhoto_eq (h0 : 0 ∉ src) (pre rest : Bytes) :
    decodePhoto signedChar (pre ++ (src ++ 0 :: rest)) pre.length =
      Base64.base64d signedChar (pre ++ (src ++ 0 :: rest)) pre.length src.length src.length := by
  rw [decodePhoto, strlen_append pre h0 rest]
  rfl

/-- A text of three bytes more than whole groups is read with its NUL. -/
theorem base64d_behind_nul (pre rest : Bytes) (size : Nat) (h3 : src.length % 4 = 3) :
    Base64.base64d signedChar (pre ++ (src ++ 0 :: rest)) pre.length src.length size =
      Base64.base64d signedChar (src ++ [0]) 0 src.length size := by
  have hlen (m : Bytes) (p : Nat) : Base64.srcLength m p src.length = some src.length := by
    rw [Base64.srcLength, if_neg (by omega), Int.toNat_natCast]
  have hmem : pre ++ (src ++ 0 :: rest) = pre ++ ((src ++ [0]) ++ rest) := by simp
  have hgroups : 0 + 4 * ((src.length + 3) / 4) ≤ (src ++ [0]).length := by
    rw [List.length_append, List.length_singleton]
    omega
  rw [Base64.base64d, Base64.base64d, hlen, hlen, hmem, Option.bind_eq_bind, Option.bind_some,
    Option.bind_eq_bind, Option.bind_some, Base64.decodeLoop_behind pre rest _ _ _ _ _ hgroups]

/-- With whole groups, or one byte less, the decoder stays inside the text and its buffer. -/
theorem decodedInside_of_length (h0 : 0 ∉ src) (h : src.length % 4 = 0 ∨ src.length % 4 = 3)
    (hchar : signedChar = true → ∀ c ∈ src, c < 128) : DecodedInside signedChar src := by
  have hnul : signedChar = true → ∀ c ∈ src ++ [0], c < 128 := by
    intro hs c hc
    cases List.mem_append.mp hc with
    | inl hc => exact hchar hs c hc
    | inr hc => exact (List.mem_singleton.mp hc) ▸ (by decide)
  have hlength : (src ++ [0]).length = src.length + 1 := by
    rw [List.length_append, List.length_singleton]
  obtain ⟨⟨result, length⟩, hdecode⟩ :
      ∃ r, Base64.base64d signedChar (src ++ [0]) 0 src.length src.length = some r := by
    refine (Base64.base64d_isSome_iff _ 0 src.length src.length).mpr ⟨fun k hk => ?_, by omega⟩
    have hlt : k < (src ++ [0]).length := by omega
    rw [Nat.zero_add]
    exact ⟨(src ++ [0])[k], List.getElem?_eq_getElem hlt,
      fun hs => hnul hs _ (List.getElem_mem hlt)⟩
  refine ⟨result, length, fun pre rest => ?_, Base64.base64d_counts hdecode⟩
  rw [decodePhoto_eq h0]
  rcases h with h4 | h3
  · have hdvd : 4 ∣ src.length := Nat.dvd_of_mod_eq_zero h4
    have hthere := Base64.base64d_behind signedChar [] [0] src.length hdvd
    rw [List.nil_append, List.length_nil, hdecode] at hthere
    rw [Base64.base64d_behind signedChar pre (0 :: rest) src.length hdvd, ← hthere]
  · rw [base64d_behind_nul pre rest src.length h3, hdecode]

/-- In a memory that ends with the NUL no byte behind it is read. -/
theorem length_of_decodedInside (h0 : 0 ∉ src) (h : DecodedInside signedChar src) :
    src.length % 4 = 0 ∨ src.length % 4 = 3 := by
  rcases h with ⟨result, length, hdecode, -⟩
  have hcall := hdecode [] []
  rw [decodePhoto_eq h0] at hcall
  obtain ⟨hread, -⟩ := (Base64.base64d_isSome_iff _ _ src.length src.length).mp ⟨_, hcall⟩
  by_contra hno
  obtain ⟨c, hc, -⟩ := hread (src.length + 1) (by omega)
  rw [List.nil_append, List.length_nil, Nat.zero_add, List.getElem?_eq_none] at hc
  · cases hc
  · rw [List.length_append, List.length_singleton]

/-- Each byte of the text is looked up. -/
theorem ascii_of_decodedInside (h0 : 0 ∉ src) (h : DecodedInside signedChar src) :
    signedChar = true → ∀ c ∈ src, c < 128 := by
  intro hs c hc
  rcases h with ⟨result, length, hdecode, -⟩
  have hcall := hdecode [] []
  rw [decodePhoto_eq h0] at hcall
  obtain ⟨hread, -⟩ := (Base64.base64d_isSome_iff _ _ src.length src.length).mp ⟨_, hcall⟩
  obtain ⟨k, hk, rfl⟩ := List.getElem_of_mem hc
  obtain ⟨c, hc, hlt⟩ := hread k (by omega)
  rw [List.nil_append, List.length_nil, Nat.zero_add, List.getElem?_append_left hk,
    List.getElem?_eq_getElem hk, Option.some.injEq] at hc
  rw [hc]
  exact hlt hs

/-- The decoder stays inside precisely on texts of whole groups and on those a byte short of that,
and, where `char` is signed, on ASCII alone. -/
theorem decoded_inside_iff (h0 : 0 ∉ src) :
    DecodedInside signedChar src ↔
      (src.length % 4 = 0 ∨ src.length % 4 = 3) ∧
        (signedChar = true → ∀ c ∈ src, c < 128) := by
  constructor
  · intro h
    exact ⟨length_of_decodedInside h0 h, ascii_of_decodedInside h0 h⟩
  · intro h
    exact decodedInside_of_length h0 h.1 h.2

theorem decoded_inside_iff_man :
    DecodedInside false (ascii "TWFu") ↔
      ((ascii "TWFu").length % 4 = 0 ∨ (ascii "TWFu").length % 4 = 3) ∧
        (false = true → ∀ c ∈ ascii "TWFu", c < 128) :=
  decoded_inside_iff (by decide)

/-- A text with one letter more is decoded into a byte behind its buffer. -/
theorem odd_text_leaves_buffer : ¬ DecodedInside false (ascii "QUJDQ") := by
  intro h
  rcases h with ⟨result, length, hdecode, -⟩
  have hcall := hdecode [] (ascii "</PHOTO_IMAGE>")
  have hnone : decodePhoto false ([] ++ (ascii "QUJDQ" ++ 0 :: ascii "</PHOTO_IMAGE>")) 0 =
      none := by
    decide +kernel
  rw [List.length_nil, hnone] at hcall
  cases hcall

end Decode

end Acu.Employee
