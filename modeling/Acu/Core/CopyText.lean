import Acu.Core.CMemory

/-!
# Texts copied into arrays

`strcpy` and `sprintf` write a text with its NUL and need room for both; `vsnprintf`
cuts the text off, and `strncpy` leaves the NUL out where the text fills the array.
-/

namespace Acu.Core.CMemory

variable {n : Nat} {text : Bytes}

/-- The text and its NUL over the first bytes of the array. -/
def put (dest : CharArray n) (text : Bytes) (h : text.length < n) : CharArray n :=
  ⟨text ++ 0 :: dest.val.drop (text.length + 1), by
    have hsize := dest.property
    simp only [List.length_append, List.length_cons, List.length_drop, hsize]
    omega⟩

/-- `strcpy`, or `sprintf` of the text; there has to be room for the NUL. -/
def copyText (dest : CharArray n) (text : Bytes) : Option (CharArray n) :=
  if h : text.length < n then some (put dest text h) else none

/-- `vsnprintf` into an array of `n + 1` bytes. -/
def vsnprintf (dest : CharArray (n + 1)) (text : Bytes) : CharArray (n + 1) :=
  put dest (text.take n) (Nat.lt_succ_of_le (List.length_take_le n text))

/-- One byte of the array. -/
def putByte (dest : CharArray n) (p : Nat) (c : UInt8) : Option (CharArray n) :=
  if p < n then some ⟨dest.val.set p c, by rw [List.length_set, dest.property]⟩ else none

/-- A byte behind a text: what follows it is what it was. -/
theorem putByte_behind {dest : CharArray n} {rest : Bytes} (h : dest.val = text ++ rest)
    (hlt : text.length < n) (c : UInt8) :
    ∃ out, putByte dest text.length c = some out ∧ out.val = text ++ c :: rest.tail := by
  refine ⟨⟨dest.val.set text.length c, by rw [List.length_set, dest.property]⟩, if_pos hlt, ?_⟩
  cases rest with
  | nil =>
      have hlength := dest.property
      rw [h, List.append_nil] at hlength
      exact absurd hlt (Nat.not_lt.mpr (Nat.le_of_eq hlength.symm))
  | cons a rest => simp [h]

theorem cstring_put (dest : CharArray n) (h : text.length < n) (h0 : 0 ∉ text) :
    cstring (put dest text h).val = some text :=
  cstring_append_nul text _ h0

theorem copyText_of_lt (dest : CharArray n) (h : text.length < n) :
    copyText dest text = some (put dest text h) :=
  dif_pos h

theorem copyText_eq_some_iff (dest : CharArray n) (text : Bytes) :
    (∃ out, copyText dest text = some out) ↔ text.length < n := by
  by_cases h : text.length < n
  · exact iff_of_true ⟨_, copyText_of_lt dest h⟩ h
  · refine iff_of_false ?_ h
    rw [copyText, dif_neg h]
    exact fun hsome => nomatch hsome

theorem cstring_vsnprintf (dest : CharArray (n + 1)) (h0 : 0 ∉ text) :
    cstring (vsnprintf dest text).val = some (text.take n) :=
  cstring_put dest _ fun h => h0 (List.mem_of_mem_take h)

theorem cstring_eq_none_of_nul_not_mem {m : Bytes} (h0 : 0 ∉ m) : cstring m = none := by
  cases hm : cstring m with
  | none => rfl
  | some s =>
      obtain ⟨-, rest, rfl⟩ := cstring_eq_some hm
      exact absurd (List.mem_append_right _ List.mem_cons_self) h0

/-- A whole array is terminated where the text leaves a place for it. -/
theorem cstring_strncpy_full_iff (dest : CharArray n) (h0 : 0 ∉ text) :
    cstring (strncpy dest text n (Nat.le_refl n)).val ≠ none ↔ text.length < n := by
  by_cases h : text.length < n
  · rw [cstring_strncpy dest (Nat.le_refl n) h0 h]
    exact iff_of_true nofun h
  · refine iff_of_false (fun hnot => hnot (cstring_eq_none_of_nul_not_mem ?_)) h
    have hsize := dest.property
    have hval : (strncpy dest text n (Nat.le_refl n)).val =
        (text ++ List.replicate n 0).take n ++ dest.val.drop n := rfl
    rw [hval, List.drop_eq_nil_of_le (by omega), List.append_nil,
      List.take_append_of_le_length (by omega)]
    exact fun hmem => h0 (List.mem_of_mem_take hmem)

end Acu.Core.CMemory
