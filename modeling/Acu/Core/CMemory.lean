import Mathlib.Tactic.Common

/-!
# Bytes, C strings and C text formatting

The memory behind a pointer is the list of bytes that can be accessed from the
start of its object, and a pointer is an offset. Every access is checked: a read
or a write past the end of the list, or through a null pointer, is `none`.
-/

namespace Acu.Core

abbrev Bytes := List UInt8

/-- The bytes of an ASCII literal, without a terminating NUL. -/
def ascii (s : String) : Bytes := s.toList.map fun c => c.toNat.toUInt8

namespace CMemory

/-! ## Strings in memory -/

/-- The bytes up to the first NUL; `none` when the memory ends before one. -/
def cstring : Bytes → Option Bytes
  | [] => none
  | c :: cs => if c = 0 then some [] else (cstring cs).map (c :: ·)

def stringAt (m : Bytes) (p : Nat) : Option Bytes := cstring (m.drop p)

def strlen (m : Bytes) (p : Nat) : Option Nat := (stringAt m p).map List.length

/-- The scan of `strstr` from position `pos`, the memory from there on given. -/
def strstrFrom (key : Bytes) : Bytes → Nat → Option (Option Nat)
  | [], _ => none
  | c :: cs, pos =>
      if key.isPrefixOf (c :: cs) then some (some pos)
      else if c = 0 then some none
      else strstrFrom key cs (pos + 1)

/-- The first occurrence of `key` in the string at `p`: `some none` is the null
result, `none` a scan that leaves the memory. -/
def strstr (m : Bytes) (p : Nat) (key : Bytes) : Option (Option Nat) :=
  strstrFrom key (m.drop p) p

def store (m : Bytes) (p : Nat) (c : UInt8) : Option Bytes :=
  if p < m.length then some (m.set p c) else none

def load (m : Bytes) (p n : Nat) : Option Bytes :=
  if p + n ≤ m.length then some ((m.drop p).take n) else none

/-- `!strcmp(a, b)`: the comparison stops at the first difference or common NUL. -/
def strcmpEq : Bytes → Bytes → Option Bool
  | a :: as, b :: bs =>
      if a ≠ b then some false else if a = 0 then some true else strcmpEq as bs
  | _, _ => none

/-- A `char` array of fixed size. -/
def CharArray (n : Nat) := { b : Bytes // b.length = n }

instance (n : Nat) : DecidableEq (CharArray n) :=
  inferInstanceAs (DecidableEq { b : Bytes // b.length = n })

/-- `strncpy` of the string `src` into an array: `k` bytes are written, padded with NULs;
the bytes behind them stay as they were. -/
def strncpy {n : Nat} (dest : CharArray n) (src : Bytes) (k : Nat) (h : k ≤ n) : CharArray n :=
  ⟨(src ++ List.replicate k 0).take k ++ dest.val.drop k, by
    have := dest.property
    simp
    omega⟩

theorem store_length {m m' : Bytes} {p : Nat} {c : UInt8} (h : store m p c = some m') :
    m'.length = m.length := by
  unfold store at h
  split at h
  · cases h; simp
  · cases h

theorem cstring_append_nul (s rest : Bytes) (hs : 0 ∉ s) : cstring (s ++ 0 :: rest) = some s := by
  induction s with
  | nil => simp [cstring]
  | cons c cs ih =>
      obtain ⟨hc, hcs⟩ : 0 ≠ c ∧ 0 ∉ cs := by simpa using hs
      simp [cstring, Ne.symm hc, ih hcs]

theorem cstring_eq_some {m s : Bytes} (h : cstring m = some s) :
    0 ∉ s ∧ ∃ rest, m = s ++ 0 :: rest := by
  induction m generalizing s with
  | nil => cases h
  | cons c cs ih =>
      unfold cstring at h
      split at h
      next hc => cases h; exact ⟨by simp, cs, by rw [hc, List.nil_append]⟩
      next hc =>
        obtain ⟨t, ht, rfl⟩ := Option.map_eq_some_iff.mp h
        obtain ⟨h0, rest, rfl⟩ := ih ht
        exact ⟨by simpa using ⟨Ne.symm hc, h0⟩, rest, rfl⟩

/-- A string that fits, copied with its NUL, is the string of the array. -/
theorem cstring_strncpy {n : Nat} (dest : CharArray n) {s : Bytes} {k : Nat} (h : k ≤ n)
    (h0 : 0 ∉ s) (hk : s.length < k) : cstring (strncpy dest s k h).val = some s := by
  have hpad : (s ++ List.replicate k 0).take k = s ++ 0 :: List.replicate (k - s.length - 1) 0 := by
    have hzeros : List.replicate (k - s.length) (0 : UInt8) =
        0 :: List.replicate (k - s.length - 1) 0 := by
      rw [← List.replicate_succ]
      congr 1
      omega
    rw [List.take_append, List.take_of_length_le (by omega), List.take_replicate,
      Nat.min_eq_left (by omega), hzeros]
  have hval : (strncpy dest s k h).val = s ++ 0 :: (List.replicate (k - s.length - 1) 0 ++
      dest.val.drop k) := by
    have hdef : (strncpy dest s k h).val = (s ++ List.replicate k 0).take k ++ dest.val.drop k :=
      rfl
    rw [hdef, hpad, List.append_assoc, List.cons_append]
  rw [hval]
  exact cstring_append_nul s _ h0

/-! ## Searching -/

theorem strstrFrom_nul_ne_none (key m : Bytes) (pos : Nat) :
    strstrFrom key (m ++ [0]) pos ≠ none := by
  induction m generalizing pos with
  | nil =>
      simp only [List.nil_append, strstrFrom]
      split <;> simp
  | cons c cs ih =>
      simp only [List.cons_append, strstrFrom]
      split
      · simp
      · split
        · simp
        · exact ih (pos + 1)

/-- A key without NUL that starts inside `m` and fits before a NUL lies inside `m`. -/
theorem isPrefixOf_append_nul {key m : Bytes} (hkey : 0 ∉ key)
    (h : key.isPrefixOf (m ++ [0]) = true) : key <+: m := by
  rw [List.isPrefixOf_iff_prefix] at h
  rcases List.prefix_concat_iff.mp h with heq | hp
  · exact absurd (heq ▸ by simp) hkey
  · exact hp

/-- What is found in a text is found whatever memory follows it. -/
theorem strstrFrom_found {key m : Bytes} {pos q : Nat} (hkey : 0 ∉ key) (hne : key ≠ [])
    (h : strstrFrom key (m ++ [0]) pos = some (some q)) (rest : Bytes) :
    ∃ q', strstrFrom key (m ++ rest) pos = some (some q') := by
  induction m generalizing pos with
  | nil =>
      simp only [List.nil_append, strstrFrom] at h
      split at h
      next hp => exact absurd (List.prefix_nil.mp (isPrefixOf_append_nul (m := []) hkey hp)) hne
      next => simp at h
  | cons c cs ih =>
      simp only [List.cons_append, strstrFrom] at h ⊢
      by_cases hr : key.isPrefixOf (c :: (cs ++ rest)) = true
      · exact ⟨pos, by rw [if_pos hr]⟩
      rw [if_neg hr]
      split at h
      next hp =>
        have hm : key <+: c :: cs := isPrefixOf_append_nul (m := c :: cs) hkey hp
        have hext : key <+: c :: (cs ++ rest) := hm.trans (List.prefix_append (c :: cs) rest)
        exact absurd (List.isPrefixOf_iff_prefix.mpr hext) hr
      next =>
        split at h
        · simp at h
        next hc =>
          rw [if_neg hc]
          exact ih h

theorem strstr_found {key m : Bytes} {q : Nat} (hkey : 0 ∉ key) (hne : key ≠ [])
    (h : strstr (m ++ [0]) 0 key = some (some q)) (rest : Bytes) :
    ∃ q', strstr (m ++ rest) 0 key = some (some q') := by
  simp only [strstr, List.drop_zero] at h ⊢
  exact strstrFrom_found hkey hne h rest

/-- A hit of `strstr` lies inside the memory, at or after the start of the scan. -/
theorem strstrFrom_bounds {key m : Bytes} {pos q : Nat}
    (h : strstrFrom key m pos = some (some q)) : pos ≤ q ∧ q < pos + m.length := by
  induction m generalizing pos with
  | nil => cases h
  | cons c cs ih =>
      unfold strstrFrom at h
      split at h
      · cases h
        simp
      · split at h
        · cases h
        · have hb := ih h
          simp only [List.length_cons]
          omega

theorem strstr_bounds {key m : Bytes} {p q : Nat} (h : strstr m p key = some (some q)) :
    p ≤ q ∧ q < m.length := by
  have hb := strstrFrom_bounds h
  simp only [List.length_drop] at hb
  omega

/-- Before its final NUL a text either holds the key or does not. -/
theorem strstr_nul_cases (m key : Bytes) :
    strstr (m ++ [0]) 0 key = some none ∨ ∃ q, strstr (m ++ [0]) 0 key = some (some q) := by
  cases h : strstr (m ++ [0]) 0 key with
  | none => exact absurd (by simpa [strstr] using h) (strstrFrom_nul_ne_none key m 0)
  | some r =>
      cases r with
      | none => exact .inl rfl
      | some q => exact .inr ⟨q, rfl⟩

/-! ## Numbers to and from text -/

def isSpace (c : UInt8) : Bool := c == 32 || (9 ≤ c && c ≤ 13)

def isDigit (c : UInt8) : Bool := 48 ≤ c && c ≤ 57

def digitsValue (acc : Nat) : Bytes → Nat
  | [] => acc
  | c :: cs => if isDigit c then digitsValue (10 * acc + (c.toNat - 48)) cs else acc

/-- `atoi`: blanks, an optional sign, digits; a value out of the range of a 32-bit
`long` is clamped to it, as `strtol` does. -/
def atoi (s : Bytes) : Int :=
  let t := s.dropWhile isSpace
  let v : Int := match t with
    | 45 :: ds => -(digitsValue 0 ds : Int)
    | 43 :: ds => digitsValue 0 ds
    | ds => digitsValue 0 ds
  max (-2147483648) (min 2147483647 v)

def digits (base n : Nat) : Bytes := (Nat.toDigits base n).map fun c => c.toNat.toUInt8

def pad (fill : UInt8) (width : Nat) (s : Bytes) : Bytes :=
  List.replicate (width - s.length) fill ++ s

/-- The conversion `%d`. -/
def decimal (n : Int) : Bytes :=
  if n < 0 then 45 :: digits 10 n.natAbs else digits 10 n.natAbs

/-- The conversion `%0wd`. -/
def decimalZero (width : Nat) (n : Int) : Bytes :=
  if n < 0 then 45 :: pad 48 (width - 1) (digits 10 n.natAbs)
  else pad 48 width (digits 10 n.natAbs)

/-- The conversion `%wd`. -/
def decimalBlank (width : Nat) (n : Int) : Bytes := pad 32 width (decimal n)

/-- The conversion `%0wx` of an unsigned value. -/
def hexZero (width n : Nat) : Bytes := pad 48 width (digits 16 n)

end CMemory

end Acu.Core
