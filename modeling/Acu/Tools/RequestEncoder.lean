import Acu.Core.Search
import Acu.Tools.RoundTrip

/-!
# The encoders in their buffers

`base64e2` and `base64e2_http` as the loops over pointers they are, with every byte
read from the source and every byte written to the result checked, and the function
that says how large the result buffer has to be.
-/

namespace Acu.Tools.Base64

open Acu.Core Acu.Core.CMemory

namespace InBuffer

/-- `*o++ = c`: the result and the pointer afterwards. -/
def put (c : UInt8) (w : Bytes × Nat) : Option (Bytes × Nat) := do
  let result ← store w.1 w.2 c
  some (result, w.2 + 1)

def puts : Bytes → Bytes × Nat → Option (Bytes × Nat)
  | [], w => some w
  | c :: cs, w => do
      let w ← put c w
      puts cs w

section Loop

variable (sym : Nat → UInt8) (src : Bytes)

/-- The loop over whole groups: the pointer into the source, and the result. -/
def groups : Nat → Nat → Bytes × Nat → Option (Nat × Bytes × Nat)
  | 0, p, w => some (p, w)
  | sz + 1, p, w => do
      let c0 ← src[p]?
      let c1 ← src[p + 1]?
      let c2 ← src[p + 2]?
      let w ← puts [sym (c0.toNat / 4), sym (c0.toNat % 4 * 16 + c1.toNat / 16),
        sym (c1.toNat % 16 * 4 + c2.toNat / 64), sym (c2.toNat % 64)] w
      groups sz (p + 3) w

/-- What stands behind the last whole group. -/
def remainder (mod p : Nat) (w : Bytes × Nat) : Option (Bytes × Nat) :=
  if mod = 1 then do
    let c0 ← src[p]?
    puts [sym (c0.toNat / 4), sym (c0.toNat % 4 * 16), 61, 61] w
  else if mod = 2 then do
    let c0 ← src[p]?
    let c1 ← src[p + 1]?
    puts [sym (c0.toNat / 4), sym (c0.toNat % 4 * 16 + c1.toNat / 16),
      sym (c1.toNat % 16 * 4), 61] w
  else some w

def symbols (sz mod p : Nat) (w : Bytes × Nat) : Option (Bytes × Nat) := do
  let (p, w) ← groups sym src sz p w
  remainder sym src mod p w

/-- The body the two encoders have in common: the result buffer and the returned length. -/
def encode (length : Nat) (result : Bytes) (at_ : Nat) : Option (Bytes × Nat) := do
  let (result, o) ← symbols sym src (length / 3) (length % 3) 0 (result, at_)
  let result ← store result o 0
  some (result, o - at_)

end Loop

/-- `base64e2(src, length, result + at_)`. -/
def base64e2 : Bytes → Nat → Bytes → Nat → Option (Bytes × Nat) := encode symbol

/-- `base64e2_http(src, length, result + at_)`. -/
def base64e2_http : Bytes → Nat → Bytes → Nat → Option (Bytes × Nat) := encode symbol_http

/-- The value of an `int`; one that does not fit is undefined. -/
def int? (v : Int) : Option Int :=
  if -2147483648 ≤ v ∧ v ≤ 2147483647 then some v else none

def base64e2_get_needbufSize (size : Int) : Option Int := do
  let t ← int? (size.tdiv 3 * 4)
  let t ← if size.tmod 3 ≠ 0 then int? (t + 4) else some t
  int? (t + 1)

/-! ## What is written -/

/-- Bytes are written over those behind the pointer, as long as there are some. -/
theorem puts_eq (cs pre old : Bytes) :
    puts cs (pre ++ old, pre.length) =
      if cs.length ≤ old.length then
        some (pre ++ cs ++ old.drop cs.length, (pre ++ cs).length)
      else none := by
  induction cs generalizing pre old with
  | nil => simp [puts]
  | cons c cs ih =>
      cases old with
      | nil => simp [puts, put, store]
      | cons o old =>
          have hstore : store (pre ++ o :: old) pre.length c = some (pre ++ c :: old) :=
            store_behind pre [] o c old
          have hput : put c (pre ++ o :: old, pre.length) =
              some (pre ++ [c] ++ old, (pre ++ [c]).length) := by
            simp [put, hstore]
          rw [puts, hput, Option.bind_eq_bind, Option.bind_some, ih]
          simp

theorem read_here (done l : Bytes) : (done ++ l)[done.length]? = l[0]? := getElem?_behind rfl 0

/-- From a pointer that stands before `x` the text of `x` is written over the bytes there, as far
as there is room for it. -/
theorem symbols_eq (a : Alphabet) (x done pre old : Bytes) :
    symbols a.sym (done ++ x) (x.length / 3) (x.length % 3) done.length
        (pre ++ old, pre.length) =
      if (a.encode x).length ≤ old.length then
        some (pre ++ a.encode x ++ old.drop (a.encode x).length, (pre ++ a.encode x).length)
      else none := by
  fun_induction Alphabet.encode a x generalizing done pre old with
  | case1 c0 c1 c2 rest ih =>
      have hsz : (c0 :: c1 :: c2 :: rest).length / 3 = rest.length / 3 + 1 := by
        simp only [List.length_cons]
        omega
      have hmod : (c0 :: c1 :: c2 :: rest).length % 3 = rest.length % 3 := by
        simp only [List.length_cons]
        omega
      have hsrc : done ++ c0 :: c1 :: c2 :: rest = done ++ [c0, c1, c2] ++ rest := by simp
      have hp : done.length + 3 = (done ++ [c0, c1, c2]).length := by simp
      rw [symbols, hsz, hmod, groups, read_here, getElem?_behind rfl 1, getElem?_behind rfl 2]
      simp only [List.getElem?_cons_zero, List.getElem?_cons_succ, Option.bind_eq_bind,
        Option.bind_some, puts_eq]
      by_cases hroom : 4 ≤ old.length
      · have hrec := ih (done ++ [c0, c1, c2])
          (pre ++ [a.sym (c0.toNat / 4), a.sym (c0.toNat % 4 * 16 + c1.toNat / 16),
            a.sym (c1.toNat % 16 * 4 + c2.toNat / 64), a.sym (c2.toNat % 64)]) (old.drop 4)
        rw [symbols, Option.bind_eq_bind] at hrec
        simp only [List.length_cons, List.length_nil, Nat.zero_add, Nat.reduceAdd, if_pos hroom,
          Option.bind_some]
        rw [hp, hsrc, hrec, List.length_drop, List.drop_drop]
        by_cases hrest : (a.encode rest).length ≤ old.length - 4
        · have hcount : 4 + (a.encode rest).length = (a.encode rest).length + 1 + 1 + 1 + 1 := by
            omega
          rw [if_pos hrest, if_pos (by omega), hcount]
          simp
        · rw [if_neg hrest, if_neg (by omega)]
      · have hall : ¬ (a.encode rest).length + 1 + 1 + 1 + 1 ≤ old.length := by omega
        simp [hroom, hall]
  | case2 c0 c1 => simp [symbols, groups, remainder, puts_eq]
  | case3 c0 => simp [symbols, groups, remainder, puts_eq]
  | case4 => simp [symbols, groups, remainder]

/-- The text and its NUL are written over as many bytes, and nothing else is. -/
theorem encode_eq (a : Alphabet) (x pre old : Bytes) :
    encode a.sym x x.length (pre ++ old) pre.length =
      if (a.encode x).length + 1 ≤ old.length then
        some (pre ++ (a.encode x ++ 0 :: old.drop ((a.encode x).length + 1)), (a.encode x).length)
      else none := by
  have hsymbols := symbols_eq a x [] pre old
  rw [List.nil_append, List.length_nil] at hsymbols
  rw [encode, hsymbols]
  by_cases htext : (a.encode x).length ≤ old.length
  · rw [if_pos htext, Option.bind_eq_bind, Option.bind_some]
    cases hrest : old.drop (a.encode x).length with
    | nil =>
        have hfull : ¬ (a.encode x).length + 1 ≤ old.length := by
          have hlen := congrArg List.length hrest
          rw [List.length_drop, List.length_nil] at hlen
          omega
        rw [if_neg hfull]
        simp [store]
    | cons o rest =>
        have hroom : (a.encode x).length + 1 ≤ old.length := by
          have hlen := congrArg List.length hrest
          rw [List.length_drop, List.length_cons] at hlen
          omega
        have hbehind : old.drop ((a.encode x).length + 1) = rest := by
          rw [← List.drop_drop, hrest]
          rfl
        have hstore : store (pre ++ a.encode x ++ o :: rest) (pre ++ a.encode x).length 0 =
            some (pre ++ a.encode x ++ 0 :: rest) := store_behind (pre ++ a.encode x) [] o 0 rest
        have hlen : (pre ++ a.encode x).length - pre.length = (a.encode x).length := by
          rw [List.length_append, Nat.add_sub_cancel_left]
        rw [if_pos hroom, hbehind]
        simp only [hstore, Option.bind_eq_bind, Option.bind_some, hlen]
        rw [List.append_assoc]
  · rw [if_neg htext, if_neg (by omega)]
    rfl

theorem encode_text (a : Alphabet) (x pre old post : Bytes)
    (h : old.length = (a.encode x).length + 1) :
    encode a.sym x x.length (pre ++ (old ++ post)) pre.length =
      some (pre ++ (a.encode x ++ 0 :: post), (a.encode x).length) := by
  rw [encode_eq, if_pos (by rw [List.length_append]; omega), ← h, List.drop_left]

end InBuffer

/-! ## The text of a request body -/

/-- The one symbol that the two alphabets write differently. -/
def minusForPlus (c : UInt8) : UInt8 := if c = 43 then 45 else c

theorem symbol_http_eq : ∀ v < 64, symbol_http v = minusForPlus (symbol v) := by decide +kernel

theorem symbol_http_plain : ∀ v < 64,
    symbol_http v ≠ 43 ∧ symbol_http v ≠ 38 ∧ symbol_http v ≠ 37 := by
  decide +kernel

/-- The symbols of a text are those of its groups, and padding. -/
theorem Alphabet.mem_encode (a : Alphabet) {x : Bytes} {c : UInt8} (h : c ∈ a.encode x) :
    c = 61 ∨ ∃ v < 64, c = a.sym v := by
  fun_induction Alphabet.encode a x with
  | case1 c0 c1 c2 rest ih =>
      have b0 := c0.toNat_lt
      have b1 := c1.toNat_lt
      have b2 := c2.toNat_lt
      rcases List.mem_cons.mp h with rfl | h
      · exact .inr ⟨_, by omega, rfl⟩
      rcases List.mem_cons.mp h with rfl | h
      · exact .inr ⟨_, by omega, rfl⟩
      rcases List.mem_cons.mp h with rfl | h
      · exact .inr ⟨_, by omega, rfl⟩
      rcases List.mem_cons.mp h with rfl | h
      · exact .inr ⟨_, by omega, rfl⟩
      exact ih h
  | case2 c0 c1 =>
      have b0 := c0.toNat_lt
      have b1 := c1.toNat_lt
      rcases List.mem_cons.mp h with rfl | h
      · exact .inr ⟨_, by omega, rfl⟩
      rcases List.mem_cons.mp h with rfl | h
      · exact .inr ⟨_, by omega, rfl⟩
      rcases List.mem_cons.mp h with rfl | h
      · exact .inr ⟨_, by omega, rfl⟩
      exact .inl (List.mem_singleton.mp h)
  | case3 c0 =>
      have b0 := c0.toNat_lt
      rcases List.mem_cons.mp h with rfl | h
      · exact .inr ⟨_, by omega, rfl⟩
      rcases List.mem_cons.mp h with rfl | h
      · exact .inr ⟨_, by omega, rfl⟩
      exact .inl (by simpa using h)
  | case4 => cases h

theorem base64e2_http_eq_map (x : Bytes) : base64e2_http x = (base64e2 x).map minusForPlus := by
  have hpad : minusForPlus 61 = 61 := rfl
  fun_induction base64e2 x with
  | case1 c0 c1 c2 rest ih =>
      have b0 := c0.toNat_lt
      have b1 := c1.toNat_lt
      have b2 := c2.toNat_lt
      rw [base64e2_http, ih, List.map_cons, List.map_cons, List.map_cons, List.map_cons,
        symbol_http_eq _ (by omega), symbol_http_eq _ (by omega), symbol_http_eq _ (by omega),
        symbol_http_eq _ (by omega)]
  | case2 c0 c1 =>
      have b0 := c0.toNat_lt
      have b1 := c1.toNat_lt
      rw [base64e2_http, symbol_http_eq _ (by omega), symbol_http_eq _ (by omega),
        symbol_http_eq _ (by omega)]
      rfl
  | case3 c0 =>
      have b0 := c0.toNat_lt
      rw [base64e2_http, symbol_http_eq _ (by omega), symbol_http_eq _ (by omega)]
      rfl
  | case4 => rfl

/-- A text holds nothing that a form would take for a separator or an escape. -/
theorem base64e2_http_plain (x : Bytes) :
    43 ∉ base64e2_http x ∧ 38 ∉ base64e2_http x ∧ 37 ∉ base64e2_http x := by
  have hplain (c : UInt8) (h : c ∈ base64e2_http x) : c ≠ 43 ∧ c ≠ 38 ∧ c ≠ 37 := by
    rw [base64e2_http_eq] at h
    rcases http.mem_encode h with rfl | ⟨v, hv, rfl⟩
    · decide
    · exact symbol_http_plain v hv
  exact ⟨fun h => (hplain _ h).1 rfl, fun h => (hplain _ h).2.1 rfl, fun h => (hplain _ h).2.2 rfl⟩

theorem needbufSize_eq (n : Nat) (h : 4 * ((n + 2) / 3) + 1 ≤ 2147483647) :
    InBuffer.base64e2_get_needbufSize n = some (4 * ((n + 2) / 3) + 1 : Nat) := by
  have hdiv : (n : Int).tdiv 3 = (n / 3 : Nat) := rfl
  have hmod : (n : Int).tmod 3 = (n % 3 : Nat) := rfl
  have hint (v : Nat) (hv : v ≤ 2147483647) : InBuffer.int? v = some (v : Int) := by
    rw [InBuffer.int?, if_pos (by omega)]
  have hfirst : InBuffer.int? (((n / 3 : Nat) : Int) * 4) = some ((n / 3 * 4 : Nat) : Int) :=
    hint (n / 3 * 4) (by omega)
  rw [InBuffer.base64e2_get_needbufSize, hdiv, hmod, hfirst, Option.bind_eq_bind, Option.bind_some]
  by_cases h3 : n % 3 = 0
  · have hlast := hint (n / 3 * 4 + 1) (by omega)
    have hsize : n / 3 * 4 + 1 = 4 * ((n + 2) / 3) + 1 := by omega
    rw [if_neg (by omega), Option.bind_eq_bind, Option.bind_some, ← hsize]
    exact hlast
  · have hmore := hint (n / 3 * 4 + 4) (by omega)
    have hlast := hint (n / 3 * 4 + 4 + 1) (by omega)
    have hsize : n / 3 * 4 + 4 + 1 = 4 * ((n + 2) / 3) + 1 := by omega
    rw [if_pos (by omega), show ((n / 3 * 4 : Nat) : Int) + 4 = ((n / 3 * 4 + 4 : Nat) : Int) from
      rfl, hmore, Option.bind_eq_bind, Option.bind_some, ← hsize]
    exact hlast

/-- A call of the encoder on `x` writes the text and its NUL over the `size` bytes at the
pointer and nothing else, and returns the length of the text. -/
def Writes (call : Bytes → Nat → Option (Bytes × Nat)) (text : Bytes) (size : Int) : Prop :=
  (text.length : Int) + 1 = size ∧ ∀ pre old post : Bytes, (old.length : Int) = size →
    call (pre ++ (old ++ post)) pre.length = some (pre ++ (text ++ 0 :: post), text.length)

/-- The two encoders keep in step: `base64e2_http` writes the text of `base64e2` with `-` for
`+`, which a form leaves as it is, and both fill the buffer of the size asked for. -/
theorem base64e2_http_fits (x : Bytes) (hint : 4 * ((x.length + 2) / 3) + 1 ≤ 2147483647) :
    base64e2_http x = (base64e2 x).map minusForPlus ∧
      (43 ∉ base64e2_http x ∧ 38 ∉ base64e2_http x ∧ 37 ∉ base64e2_http x) ∧
      ∃ size, InBuffer.base64e2_get_needbufSize x.length = some size ∧
        Writes (InBuffer.base64e2_http x x.length) (base64e2_http x) size ∧
        Writes (InBuffer.base64e2 x x.length) (base64e2 x) size := by
  refine ⟨base64e2_http_eq_map x, base64e2_http_plain x, _, needbufSize_eq x.length hint, ?_, ?_⟩
  · have hlen := encode_length http x
    rw [base64e2_http_eq]
    refine ⟨by omega, fun pre old post hold => ?_⟩
    exact InBuffer.encode_text http x pre old post (by omega)
  · have hlen := encode_length mime x
    rw [base64e2_eq]
    refine ⟨by omega, fun pre old post hold => ?_⟩
    exact InBuffer.encode_text mime x pre old post (by omega)

theorem base64e2_http_fits_f8 :
    base64e2_http [248] = (base64e2 [248]).map minusForPlus ∧
      (43 ∉ base64e2_http [248] ∧ 38 ∉ base64e2_http [248] ∧ 37 ∉ base64e2_http [248]) ∧
      ∃ size, InBuffer.base64e2_get_needbufSize (1 : Nat) = some size ∧
        Writes (InBuffer.base64e2_http [248] 1) (base64e2_http [248]) size ∧
        Writes (InBuffer.base64e2 [248] 1) (base64e2 [248]) size :=
  base64e2_http_fits [248] (by decide)

end Acu.Tools.Base64
