import Acu.Core.Occurrence
import Acu.Web.Replies

/-!
# What the scan of a header finds

`parsingHeader` goes through the buffer from one mark to the next: the blanks of the
status line, the name of the length, the end of its line. The scan is a function of the
memory it may look at, of which the received bytes are only the first part.
-/

namespace Acu.Web

open Acu.Core Acu.Core.CMemory

/-- What `parsingHeader` does behind its `recv` of `readlen` bytes. -/
def scanHeader (buf : Bytes) (readlen : Nat) : Option (Option Header) := do
  let p ← ← strstr buf 0 (ascii " ")
  let e ← ← strstr buf (p + 1) (ascii " ")
  let buf ← store buf e 0
  let retVal := atoi (← stringAt buf (p + 1))
  if retVal ≠ 200 then some none
  else
    let p ← ← strstr buf (e + 1) (ascii "\nContent-Length:")
    let p := p + 17
    let e ← ← strstr buf p (ascii "\r")
    let buf ← store buf e 0
    let contentLength := atoi (← stringAt buf p)
    let startContent := e + 4
    some (some ⟨buf, startContent, contentLength, (readlen : Int) - startContent⟩)

theorem parsingHeader_data (stack : CharArray RCVHEADERBUFSIZE) (bytes : Bytes) :
    parsingHeader stack (.data bytes) =
      if bytes.length = 0 then some none
      else if RCVHEADERBUFSIZE - 1 < bytes.length then none
      else scanHeader (bytes ++ stack.val.drop bytes.length) bytes.length := rfl

/-- `"\nContent-Length:"`. -/
def lengthKey : Bytes := ascii "\nContent-Length:"

/-- The memory up to the second blank, and behind it. -/
structure StatusLine (buf version code rest : Bytes) : Prop where
  eq : buf = version ++ 32 :: (code ++ 32 :: rest)
  version : 32 ∉ version ∧ 0 ∉ version
  code : 32 ∉ code ∧ 0 ∉ code

/-- The first line that begins with the name of the length; the letter behind the colon is
skipped. -/
structure LengthLine (rest before : Bytes) (skipped : UInt8) (value behind : Bytes) : Prop where
  first : First lengthKey rest before (skipped :: (value ++ 13 :: behind))
  before : 0 ∉ before
  value : 13 ∉ value ∧ 0 ∉ value

/-- The header that the parts make, the buffer cut behind the code and behind the value. -/
def headerOf (readlen : Nat) (version code before : Bytes) (skipped : UInt8)
    (value behind : Bytes) : Header :=
  let front := version ++ 32 :: (code ++ 0 :: (before ++ (lengthKey ++ [skipped])))
  let startContent := (front ++ value).length + 4
  ⟨front ++ (value ++ 0 :: behind), startContent, atoi value, (readlen : Int) - startContent⟩

/-- The outcomes of a scan that looks at nothing outside the memory. -/
inductive Scans (buf : Bytes) (readlen : Nat) : Option Header → Prop where
  | refused {version code rest : Bytes} (line : StatusLine buf version code rest)
      (h : atoi code ≠ 200) : Scans buf readlen none
  | accepted {version code rest before value behind : Bytes} {skipped : UInt8}
      (line : StatusLine buf version code rest) (h : atoi code = 200)
      (length : LengthLine rest before skipped value behind) :
      Scans buf readlen (some (headerOf readlen version code before skipped value behind))

/-- The status line, as far as it is scanned. -/
theorem scanStatus_iff {buf code' : Bytes} {p e : Nat} {buf' : Bytes} :
    (strstr buf 0 (ascii " ") = some (some p) ∧ strstr buf (p + 1) (ascii " ") = some (some e) ∧
        store buf e 0 = some buf' ∧ stringAt buf' (p + 1) = some code') ↔
      ∃ version rest, StatusLine buf version code' rest ∧ p = version.length ∧
        e = version.length + 1 + code'.length ∧
        buf' = version ++ 32 :: (code' ++ 0 :: rest) := by
  have hblank : ascii " " = [32] := by decide
  have hfirst := strstr_iff_letter (m := buf) [] rfl 32
  simp only [List.nil_append, List.length_nil, Nat.zero_add] at hfirst
  rw [hblank, hfirst]
  have hmove (version tail : Bytes) : version ++ 32 :: tail = (version ++ [32]) ++ tail := by simp
  have hlength (version : Bytes) : version.length + 1 = (version ++ [32]).length := by simp
  constructor
  · intro h
    rcases h with ⟨⟨version, tail, rfl, h32, h0, rfl⟩, he, hs, hc⟩
    rw [hmove, strstr_iff_letter _ (hlength version)] at he
    rcases he with ⟨code, rest, rfl, h32', h0', rfl⟩
    rw [hmove, store_behind] at hs
    cases hs
    rw [hlength, stringAt_append _ h0'] at hc
    cases hc
    exact ⟨version, rest, ⟨rfl, ⟨h32, h0⟩, ⟨h32', h0'⟩⟩, rfl, by rw [hlength], (hmove _ _).symm⟩
  · intro h
    rcases h with ⟨version, rest, ⟨rfl, ⟨h32, h0⟩, ⟨h32', h0'⟩⟩, rfl, rfl, rfl⟩
    refine ⟨⟨version, _, rfl, h32, h0, rfl⟩, ?_, ?_, ?_⟩
    · rw [hmove, strstr_iff_letter _ (hlength version)]
      exact ⟨code', rest, rfl, h32', h0', by rw [hlength]⟩
    · rw [hmove, hlength, store_behind, ← hmove]
    · rw [hmove, hlength, stringAt_append _ h0']

/-- The line of the length behind the status line. -/
theorem scanLength_iff (front : Bytes) {rest value' buf' : Bytes} {l e : Nat} :
    (strstr (front ++ rest) front.length lengthKey = some (some l) ∧
        strstr (front ++ rest) (l + 17) (ascii "\r") = some (some e) ∧
        store (front ++ rest) e 0 = some buf' ∧ stringAt buf' (l + 17) = some value') ↔
      ∃ before skipped behind, LengthLine rest before skipped value' behind ∧
        l = front.length + before.length ∧
        e = (front ++ (before ++ (lengthKey ++ [skipped])) ++ value').length ∧
        buf' = front ++ (before ++ (lengthKey ++ [skipped])) ++ (value' ++ 0 :: behind) := by
  have hreturn : ascii "\r" = [13] := by decide
  have hsize : lengthKey.length = 16 := by decide
  have hne : lengthKey ≠ [] := by decide
  have hmove (before tail : Bytes) (skipped : UInt8) :
      front ++ (before ++ (lengthKey ++ skipped :: tail)) =
        (front ++ (before ++ (lengthKey ++ [skipped]))) ++ tail := by
    simp
  have hlength (before : Bytes) (skipped : UInt8) : front.length + before.length + 17 =
      (front ++ (before ++ (lengthKey ++ [skipped]))).length := by
    simp only [List.length_append, hsize, List.length_cons, List.length_nil, Nat.zero_add,
      Nat.reduceAdd]
    omega
  rw [hreturn, strstr_iff_first hne front rfl]
  constructor
  · intro h
    rcases h with ⟨⟨before, post, hfirst, h0, rfl⟩, he, hs, hv⟩
    cases post with
    | nil =>
        have hend : (front ++ rest).drop (front.length + before.length + 17) = [] := by
          rw [List.drop_eq_nil_iff, hfirst.eq]
          simp only [List.append_nil, List.length_append, hsize]
          omega
        rw [strstr, hend] at he
        cases he
    | cons skipped tail =>
        rw [hfirst.eq, hmove, strstr_iff_letter _ (hlength before skipped)] at he
        rcases he with ⟨value, behind, rfl, h13, h0', rfl⟩
        rw [hfirst.eq, hmove, store_behind] at hs
        cases hs
        rw [hlength before skipped, stringAt_append _ h0'] at hv
        cases hv
        exact ⟨before, skipped, behind, ⟨hfirst, h0, ⟨h13, h0'⟩⟩, rfl, List.length_append.symm,
          rfl⟩
  · intro h
    rcases h with ⟨before, skipped, behind, ⟨hfirst, h0, ⟨h13, h0'⟩⟩, rfl, rfl, rfl⟩
    refine ⟨⟨before, _, hfirst, h0, rfl⟩, ?_, ?_, ?_⟩
    · rw [hfirst.eq, hmove, strstr_iff_letter _ (hlength before skipped)]
      exact ⟨value', behind, rfl, h13, h0', List.length_append⟩
    · rw [hfirst.eq, hmove, List.length_append, store_behind]
    · rw [hlength before skipped, stringAt_append _ h0']

/-- The scan is carried out within the memory with the outcome `r`. -/
theorem scanHeader_iff {buf : Bytes} {readlen : Nat} {r : Option Header} :
    scanHeader buf readlen = some r ↔ Scans buf readlen r := by
  have hcut (version code rest : Bytes) : version ++ 32 :: (code ++ 0 :: rest) =
      (version ++ 32 :: (code ++ [0])) ++ rest := by
    simp
  have hfront (version code : Bytes) : version.length + 1 + code.length + 1 =
      (version ++ 32 :: (code ++ [0])).length := by
    simp only [List.length_append, List.length_cons, List.length_nil, Nat.zero_add]
    omega
  have hheader (version code before value behind : Bytes) (skipped : UInt8) :
      (⟨(version ++ 32 :: (code ++ [0])) ++ (before ++ (lengthKey ++ [skipped])) ++
          (value ++ 0 :: behind),
        ((version ++ 32 :: (code ++ [0])) ++ (before ++ (lengthKey ++ [skipped])) ++
          value).length + 4, atoi value,
        (readlen : Int) - (((version ++ 32 :: (code ++ [0])) ++
          (before ++ (lengthKey ++ [skipped])) ++ value).length + 4 : Nat)⟩ : Header) =
        headerOf readlen version code before skipped value behind := by
    simp [headerOf]
  simp only [scanHeader, Option.bind_eq_bind]
  constructor
  · intro h
    simp only [Option.bind_eq_some_iff] at h
    rcases h with ⟨_, hp, p, rfl, _, he, e, rfl, buf', hs, code, hc, h⟩
    obtain ⟨version, rest, line, rfl, rfl, rfl⟩ := scanStatus_iff.mp ⟨hp, he, hs, hc⟩
    split at h
    next hcode =>
      cases h
      exact .refused line hcode
    next hcode =>
      simp only [Option.bind_eq_some_iff] at h
      rcases h with ⟨_, hl, l, rfl, _, he', e', rfl, buf'', hs', value, hv, h⟩
      rw [hcut, hfront] at hl
      rw [hcut] at he' hs'
      obtain ⟨before, skipped, behind, length, rfl, rfl, rfl⟩ :=
        (scanLength_iff _).mp ⟨hl, he', hs', hv⟩
      rw [Option.some.injEq, hheader] at h
      rw [← h]
      exact .accepted line (Decidable.not_not.mp hcode) length
  · intro h
    cases h with
    | refused line h =>
        rename_i version code rest
        obtain ⟨hp, he, hs, hc⟩ := scanStatus_iff.mpr ⟨version, rest, line, rfl, rfl, rfl⟩
        simp only [hp, he, hs, hc, Option.bind_some]
        rw [if_pos h]
    | accepted line h length =>
        rename_i version code rest before value behind skipped
        obtain ⟨hp, he, hs, hc⟩ := scanStatus_iff.mpr ⟨version, rest, line, rfl, rfl, rfl⟩
        obtain ⟨hl, he', hs', hv⟩ := (scanLength_iff (version ++ 32 :: (code ++ [0]))).mpr
          ⟨before, skipped, behind, length, rfl, rfl, rfl⟩
        rw [← hfront] at hl he' hv
        simp only [hp, he, hs, hc, Option.bind_some]
        rw [if_neg (Decidable.not_not.mpr h)]
        rw [← hcut] at hl he' hs'
        have hl' : strstr (version ++ 32 :: (code ++ 0 :: rest))
            (version.length + 1 + code.length + 1) (ascii "\nContent-Length:") = _ := hl
        simp only [hl', he', hs', hv, Option.bind_some]
        rw [hheader]

/-! ## What the header leaves -/

section Header

variable {buf : Bytes} {readlen : Nat}

theorem StatusLine.extend {version code rest : Bytes} (h : StatusLine buf version code rest)
    (more : Bytes) : StatusLine (buf ++ more) version code (rest ++ more) where
  eq := by rw [h.eq, List.append_assoc, List.cons_append, List.append_assoc, List.cons_append]
  version := h.version
  code := h.code

theorem LengthLine.extend {rest before value behind : Bytes} {skipped : UInt8}
    (h : LengthLine rest before skipped value behind) (more : Bytes) :
    LengthLine (rest ++ more) before skipped value (behind ++ more) where
  first := by
    have hfirst := h.first.extend more
    rw [List.cons_append, List.append_assoc, List.cons_append] at hfirst
    exact hfirst
  before := h.before
  value := h.value

/-- A scan that stays within the received bytes comes to the same end whatever follows them. -/
theorem Scans.extend {r : Option Header} (h : Scans buf readlen r) (more : Bytes) :
    Scans (buf ++ more) readlen (r.map fun h => { h with buf := h.buf ++ more }) := by
  cases h with
  | refused line h => exact .refused (line.extend more) h
  | accepted line h length =>
      rename_i version code rest before value behind skipped
      have hheader : ({ headerOf readlen version code before skipped value behind with
          buf := (headerOf readlen version code before skipped value behind).buf ++ more } :
          Header) = headerOf readlen version code before skipped value (behind ++ more) := by
        simp [headerOf]
      rw [Option.map_some, hheader]
      exact .accepted (line.extend more) h (length.extend more)

/-- The contents follow the header in the buffer as they were received. -/
theorem Scans.contents {h : Header} (hs : Scans buf readlen (some h)) :
    h.buf.length = buf.length ∧ h.readByteContent = (readlen : Int) - h.startContent ∧
      h.buf.drop h.startContent = buf.drop h.startContent := by
  cases hs with
  | accepted line hcode length =>
      rename_i version code rest before value behind skipped
      have hbuf : buf = (version ++ 32 :: (code ++ 32 :: (before ++ (lengthKey ++ [skipped]))) ++
          value) ++ 13 :: behind := by
        rw [line.eq, length.first.eq]
        simp
      have hcut : (headerOf readlen version code before skipped value behind).buf =
          (version ++ 32 :: (code ++ 0 :: (before ++ (lengthKey ++ [skipped]))) ++ value) ++
            0 :: behind := by
        simp [headerOf]
      have hstart : (headerOf readlen version code before skipped value behind).startContent =
          (version ++ 32 :: (code ++ 0 :: (before ++ (lengthKey ++ [skipped]))) ++
            value).length + 4 := rfl
      have hsame : (version ++ 32 :: (code ++ 0 :: (before ++ (lengthKey ++ [skipped]))) ++
          value).length = (version ++ 32 :: (code ++ 32 :: (before ++
            (lengthKey ++ [skipped]))) ++ value).length := by
        simp
      refine ⟨?_, rfl, ?_⟩
      · rw [hcut, hbuf]
        simp
      · rw [hstart, hcut, List.drop_length_add_append, hsame, hbuf, List.drop_length_add_append,
          List.drop_succ_cons, List.drop_succ_cons]

theorem parsingHeader_some {stack : CharArray RCVHEADERBUFSIZE} {bytes : Bytes} {h : Header}
    (hparse : parsingHeader stack (.data bytes) = some (some h)) :
    bytes.length < RCVHEADERBUFSIZE ∧ h.buf.length = RCVHEADERBUFSIZE ∧
      h.readByteContent = (bytes.length : Int) - h.startContent ∧
      h.buf.drop h.startContent =
        (bytes ++ stack.val.drop bytes.length).drop h.startContent := by
  rw [parsingHeader_data] at hparse
  split at hparse
  · cases hparse
  · split at hparse
    · cases hparse
    next hlt =>
      have hsize := stack.property
      obtain ⟨hlen, hread, hdrop⟩ := (scanHeader_iff.mp hparse).contents
      have hbuf : (bytes ++ stack.val.drop bytes.length).length = RCVHEADERBUFSIZE := by
        rw [List.length_append, List.length_drop, hsize]
        omega
      exact ⟨by omega, hlen.trans hbuf, hread, hdrop⟩

theorem StatusLine.unique {version code rest version' code' rest' : Bytes}
    (h : StatusLine buf version code rest) (h' : StatusLine buf version' code' rest') :
    version = version' ∧ code = code' ∧ rest = rest' := by
  have hfirst := first_letter.mpr ⟨h.eq, h.version.1⟩
  have hfirst' := first_letter.mpr ⟨h'.eq, h'.version.1⟩
  obtain ⟨hversion, htail⟩ := hfirst.unique hfirst'
  have hsecond : First [32] (code ++ 32 :: rest) code rest := first_letter.mpr ⟨rfl, h.code.1⟩
  have hsecond' := first_letter.mpr ⟨htail, h'.code.1⟩
  exact ⟨hversion, hsecond.unique hsecond'⟩

end Header

end Acu.Web
