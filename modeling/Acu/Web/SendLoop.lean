import Acu.Web.Outcomes
import Mathlib.Algebra.Ring.Nat

/-!
# The command in several pieces

`send` may take a command in any number of pieces. The loop starts each piece as many
bytes into the command as the piece before it was long.
-/

namespace Acu.Web

open Acu.Core Acu.Core.CMemory Attendance

/-- Positive results of `send` that come to a command of `n` bytes. -/
structure Split (n : Nat) where
  pieces : List Nat
  positive : ∀ r ∈ pieces, 0 < r
  total : pieces.sum = n

/-- Each piece but the first has the same bytes where it is taken, which is the length of the
piece before it into the text, as where it belongs, behind all pieces before it. -/
def Aligned (text : Bytes) (pieces : List Nat) : Prop :=
  ∀ before last r after, pieces = before ++ last :: r :: after →
    (text.drop last).take r = (text.drop (before.sum + last)).take r

namespace Split

variable {n : Nat} (s : Split n)

def results : List Int := s.pieces.map Int.ofNat

end Split

/-! ## The loop over the pieces -/

theorem validSends_pieces {pieces : List Nat} (hpos : ∀ r ∈ pieces, 0 < r) (more : List Int) :
    ValidSends pieces.sum (pieces.map Int.ofNat ++ more) ∧
      sendFails pieces.sum (pieces.map Int.ofNat ++ more) = false := by
  induction pieces with
  | nil => cases more <;> simp [ValidSends, sendFails]
  | cons r rs ih =>
      obtain ⟨hvalid, hfails⟩ := ih fun q hq => hpos q (List.mem_cons_of_mem r hq)
      have hr : 0 < r := hpos r List.mem_cons_self
      have hsub : (r :: rs).sum - (Int.ofNat r).toNat = rs.sum := by
        simp
      have hle : Int.ofNat r ≤ ((r :: rs).sum : Nat) := by
        rw [List.sum_cons]
        exact Int.ofNat_le.mpr (Nat.le_add_right r rs.sum)
      have hone : 1 ≤ Int.ofNat r := Int.ofNat_le.mpr hr
      rw [List.map_cons, List.cons_append, ValidSends, sendFails, hsub]
      exact ⟨.inr (.inr ⟨hone, hle, hvalid⟩), by simp [hfails]⟩

/-- Every cut of the text is taken to its end, each piece with its length. -/
theorem sendLoop_length {cmd text rest : Bytes} {off : Nat} {pieces : List Nat}
    (sent last : Nat) (taken : Bytes) (more : List Int) (hcmd : cmd.drop off = text ++ rest)
    (hlast : last ≤ sent) (hpos : ∀ r ∈ pieces, 0 < r) (hsum : sent + pieces.sum = text.length) :
    ∃ out, WebApi.sendLoop cmd off (pieces.sum : Nat) last taken
        (pieces.map Int.ofNat ++ more) = some (true, out) ∧
      out.length = taken.length + pieces.sum := by
  induction pieces generalizing sent last taken with
  | nil =>
      refine ⟨taken, ?_, by simp⟩
      cases more with
      | nil => rfl
      | cons r rs => rfl
  | cons r rs ih =>
      have hr : 0 < r := hpos r List.mem_cons_self
      rw [List.sum_cons] at hsum
      have hpiece : ((cmd.drop (off + last)).take r).length = r := by
        rw [← List.drop_drop, hcmd, List.length_take, List.length_drop, List.length_append]
        omega
      obtain ⟨out, hout, hlen⟩ := ih (sent + r) r (taken ++ (cmd.drop (off + last)).take r)
        (Nat.le_add_left r sent) (fun q hq => hpos q (List.mem_cons_of_mem r hq)) (by omega)
      refine ⟨out, ?_, ?_⟩
      · have hne : (((r :: rs).sum : Nat) : Int) ≠ 0 := by
          rw [List.sum_cons]
          omega
        have hneg : Int.ofNat r ≠ -1 := by simp
        have hsub : (((r :: rs).sum : Nat) : Int) - Int.ofNat r = (rs.sum : Nat) := by
          rw [List.sum_cons, Int.ofNat_eq_natCast]
          omega
        rw [List.map_cons, List.cons_append, WebApi.sendLoop, if_neg hne, if_neg hneg, hsub]
        exact hout
      · rw [hlen, List.length_append, hpiece, List.sum_cons, Nat.add_assoc]

/-! ## The order of the pieces -/

/-- The neighbours in a list, with what comes before them. -/
theorem forall_adjacent_cons {α : Type} {P : List α → α → α → Prop} {a b : α} {l : List α} :
    (∀ before x y after, a :: b :: l = before ++ x :: y :: after → P before x y) ↔
      P [] a b ∧
        ∀ before x y after, b :: l = before ++ x :: y :: after → P (a :: before) x y := by
  constructor
  · intro h
    refine ⟨h [] a b l rfl, fun before x y after heq => h (a :: before) x y after ?_⟩
    rw [heq, List.cons_append]
  · rintro ⟨hfirst, hrest⟩ before x y after heq
    cases before with
    | nil =>
        cases heq
        exact hfirst
    | cons c before =>
        obtain ⟨rfl, htail⟩ := List.cons.inj heq
        exact hrest before x y after htail

/-- With `last` bytes taken by the latest of the calls and `sent` before it. -/
theorem inOrder_iff {text : Bytes} {pieces : List Nat} (sent last : Nat) (more : List Int)
    (hpos : ∀ r ∈ pieces, 0 < r) (hsum : sent + last + pieces.sum = text.length) :
    InOrder text (sent + last) last (pieces.map Int.ofNat ++ more) ↔
      ∀ before q r after, last :: pieces = before ++ q :: r :: after →
        (text.drop q).take r = (text.drop (sent + before.sum + q)).take r := by
  induction pieces generalizing sent last with
  | nil =>
      have hdone : text.length ≤ sent + last := Nat.le_of_eq hsum.symm
      have hleft : InOrder text (sent + last) last more := by
        cases more with
        | nil => trivial
        | cons r rs => exact .inl hdone
      refine iff_of_true hleft fun before q r after heq => ?_
      have hlen := congrArg List.length heq
      simp only [List.length_cons, List.length_nil, zero_add, List.length_append] at hlen
      omega
  | cons r rs ih =>
      have hr : 0 < r := hpos r List.mem_cons_self
      rw [List.sum_cons] at hsum
      have hrest := ih (sent + last) r (fun q hq => hpos q (List.mem_cons_of_mem r hq)) (by omega)
      have hmore : ¬ text.length ≤ sent + last := by omega
      rw [List.map_cons, List.cons_append, InOrder, forall_adjacent_cons]
      simp only [hmore, false_or, Int.ofNat_eq_natCast, Int.toNat_natCast, List.sum_nil,
        Nat.add_zero, List.sum_cons, ← Nat.add_assoc]
      exact and_congr_right fun _ => hrest

theorem inOrder_iff_aligned {text : Bytes} (s : Split text.length) (more : List Int) :
    InOrder text 0 0 (s.results ++ more) ↔ Aligned text s.pieces := by
  have hsum : 0 + 0 + s.pieces.sum = text.length := by rw [s.total, Nat.zero_add]
  have hiff := inOrder_iff 0 0 more s.positive hsum
  rw [Nat.zero_add] at hiff
  rw [Split.results, hiff, Aligned]
  simp only [Nat.zero_add]
  constructor
  · intro h before last r after heq
    have hnext := h (0 :: before) last r after (by rw [heq, List.cons_append])
    simpa using hnext
  · intro h before last r after heq
    cases before with
    | nil =>
        obtain ⟨rfl, -⟩ := List.cons.inj heq
        rw [List.sum_nil]
    | cons c before =>
        obtain ⟨rfl, htail⟩ := List.cons.inj heq
        rw [List.sum_cons, Nat.zero_add]
        exact h before last r after htail

namespace Wa

variable {w : Wa}

theorem taken_of_loop {text out : Bytes} (htext : w.text = some text) {sys : SysCalls}
    (h : WebApi.sendLoop w.m_cmd w.m_cmd_offset text.length 0 [] sys.sends = some (true, out)) :
    w.taken sys = some out := by
  have hstrlen : strlen w.m_cmd w.m_cmd_offset = some text.length :=
    congrArg (Option.map List.length) htext
  simp only [taken, hstrlen, Option.bind_eq_bind, Option.bind_some, h]

/-- The loop comes to its end with as many bytes as the command has, and with the command
precisely when the pieces are aligned. -/
theorem taken_split {text : Bytes} (htext : w.text = some text) (s : Split text.length)
    {sys : SysCalls} {more : List Int} (hsends : sys.sends = s.results ++ more) :
    ∃ out, w.taken sys = some out ∧ out.length = text.length ∧
      (out = text ↔ Aligned text s.pieces) := by
  obtain ⟨-, rest, hrest⟩ := cstring_eq_some htext
  have hsum : 0 + s.pieces.sum = text.length := by rw [s.total, Nat.zero_add]
  obtain ⟨out, hout, hlen⟩ := sendLoop_length 0 0 [] more hrest (Nat.le_refl 0) s.positive hsum
  obtain ⟨hvalid, hfails⟩ := validSends_pieces s.positive more
  rw [s.total] at hout hlen hvalid hfails
  obtain ⟨out', hout', hiff⟩ := sendLoop_completes 0 0 [] hrest (Nat.zero_le _) (Nat.le_refl 0) rfl
    hvalid hfails
  obtain rfl : out = out' := congrArg Prod.snd (Option.some.inj (hout.symm.trans hout'))
  have horder : InOrder text 0 0 (s.pieces.map Int.ofNat ++ more) ↔ Aligned text s.pieces :=
    inOrder_iff_aligned s more
  refine ⟨out, taken_of_loop htext (hsends ▸ hout), by rw [hlen, List.length_nil, Nat.zero_add], ?_⟩
  rw [hiff, horder]
  exact and_iff_right rfl

/-- What the loop of `run` hands to the socket is the command precisely when every piece is the
one it should be. -/
theorem taken_iff_aligned (sys : SysCalls) {text : Bytes} (htext : w.text = some text)
    (s : Split text.length) (more : List Int) :
    w.taken { sys with sends := s.results ++ more } = w.text ↔ Aligned text s.pieces := by
  have hsends : ({ sys with sends := s.results ++ more } : SysCalls).sends = s.results ++ more :=
    rfl
  obtain ⟨out, hout, -, hiff⟩ := taken_split htext s hsends
  rw [hout, htext, Option.some.injEq, hiff]

end Wa

/-- One piece or two are always aligned. -/
theorem aligned_of_two {pieces : List Nat} (h : pieces.length ≤ 2) (text : Bytes) :
    Aligned text pieces := by
  intro before last r after heq
  have hlen := congrArg List.length heq
  rw [List.length_append, List.length_cons, List.length_cons] at hlen
  obtain rfl : before = [] := List.eq_nil_of_length_eq_zero (by omega)
  rw [List.sum_nil, Nat.zero_add]

/-! The 74 bytes of the question whether the net is there, in two pieces and in three. -/

def netSplit : Split (WebService.getNetInfoText (ascii "10.9.0.2")).length :=
  ⟨[40, 34], by decide, by decide +kernel⟩

theorem taken_iff_aligned_netSplit :
    getNetInfoObject.taken { netThere with sends := netSplit.results ++ [] } =
        getNetInfoObject.text ↔
      Aligned (WebService.getNetInfoText (ascii "10.9.0.2")) netSplit.pieces :=
  Wa.taken_iff_aligned netThere getNetInfoObject_text netSplit []

/-- The third piece is taken 20 bytes into the command, where it should be taken 60 bytes
into it. -/
theorem third_piece_misplaced :
    getNetInfoObject.taken { netThere with sends := [40, 20, 14] } ≠ getNetInfoObject.text := by
  decide +kernel

end Acu.Web
