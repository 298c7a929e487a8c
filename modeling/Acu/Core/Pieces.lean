import Mathlib.Tactic.Common

/-! # A list in pieces

A list can be cut into pieces in many ways. With the place of each piece given, the
pieces that stand where blocks of one length begin, and have that length, tell whether
the cut is the one into the blocks.
-/

namespace Acu.Core

universe u

variable {α : Type u}

/-- Each piece with its place, when the first one stands at `pos`. -/
def placed (pos : Nat) : List (List α) → List (Nat × List α)
  | [] => []
  | p :: ps => (pos, p) :: placed (pos + p.length) ps

theorem placed_ge {pos : Nat} {ps : List (List α)} {q : Nat × List α} (h : q ∈ placed pos ps) :
    pos ≤ q.1 := by
  induction ps generalizing pos with
  | nil => cases h
  | cons p ps ih =>
      unfold placed at h
      cases List.mem_cons.mp h with
      | inl heq =>
          exact Nat.le_of_eq (congrArg Prod.fst heq).symm
      | inr hmem =>
          have hge := ih hmem
          omega

/-- Only the first of pieces that are not empty stands at their common start. -/
theorem placed_head {pos : Nat} {p b : List α} {ps : List (List α)} (hp : p ≠ [])
    (h : (pos, b) ∈ placed pos (p :: ps)) : b = p := by
  unfold placed at h
  cases List.mem_cons.mp h with
  | inl heq => exact congrArg Prod.snd heq
  | inr hmem =>
      have hge : pos + p.length ≤ pos := placed_ge hmem
      have hlen := List.length_pos_iff.mpr hp
      omega

/-- Blocks of length `k` stand `k` apart. -/
theorem placed_blocks {k pos : Nat} {bs : List (List α)} (hlen : ∀ b ∈ bs, b.length = k) {i : Nat}
    {b : List α} (h : bs[i]? = some b) : (pos + k * i, b) ∈ placed pos bs := by
  induction bs generalizing pos i with
  | nil => cases h
  | cons c cs ih =>
      unfold placed
      cases i with
      | zero =>
          rw [List.getElem?_cons_zero, Option.some.injEq] at h
          rw [h, Nat.mul_zero, Nat.add_zero]
          exact List.mem_cons_self
      | succ i =>
          rw [List.getElem?_cons_succ] at h
          have hc : c.length = k := hlen c List.mem_cons_self
          have hcs : ∀ b ∈ cs, b.length = k := fun b hb => hlen b (List.mem_cons_of_mem c hb)
          have htail : (pos + c.length + k * i, b) ∈ placed (pos + c.length) cs := ih hcs h
          have hpos : pos + k * (i + 1) = pos + c.length + k * i := by
            rw [hc, Nat.mul_add]
            omega
          rw [hpos]
          exact List.mem_cons_of_mem _ htail

theorem placed_blocks_place {k pos : Nat} {bs : List (List α)} (hlen : ∀ b ∈ bs, b.length = k)
    {q : Nat × List α} (h : q ∈ placed pos bs) : ∃ i < bs.length, q.1 = pos + k * i := by
  induction bs generalizing pos with
  | nil => cases h
  | cons c cs ih =>
      unfold placed at h
      cases List.mem_cons.mp h with
      | inl heq => exact ⟨0, by simp, by rw [heq, Nat.mul_zero, Nat.add_zero]⟩
      | inr hmem =>
          have hc : c.length = k := hlen c List.mem_cons_self
          obtain ⟨i, hi, hq⟩ := ih (fun b hb => hlen b (List.mem_cons_of_mem c hb)) hmem
          refine ⟨i + 1, by simpa using hi, ?_⟩
          rw [hq, hc, Nat.mul_add]
          omega

/-- A cut with a piece of the blocks' length at each place where a block begins is the cut into
the blocks. -/
theorem pieces_eq_blocks {k pos : Nat} {ps bs : List (List α)} (hk : 0 < k)
    (hne : ∀ p ∈ ps, p ≠ []) (hlen : ∀ b ∈ bs, b.length = k) (hflat : ps.flatten = bs.flatten)
    (h : ∀ i < bs.length, ∃ q ∈ placed pos ps, q.1 = pos + k * i ∧ q.2.length = k) : ps = bs := by
  induction bs generalizing pos ps with
  | nil =>
      cases ps with
      | nil => rfl
      | cons p ps =>
          have hp := (List.append_eq_nil_iff.mp hflat).1
          exact absurd hp (hne p List.mem_cons_self)
  | cons b bs ih =>
      have hb : b.length = k := hlen b List.mem_cons_self
      cases ps with
      | nil =>
          have hbnil : b = [] := (List.append_eq_nil_iff.mp hflat.symm).1
          rw [hbnil, List.length_nil] at hb
          omega
      | cons p ps =>
          have hp : p ≠ [] := hne p List.mem_cons_self
          -- the piece at the first place is the first piece
          have hplen : p.length = k := by
            obtain ⟨⟨place, b'⟩, hq, hplace, hqlen⟩ := h 0 (by simp)
            obtain rfl : place = pos := hplace
            rw [← placed_head hp hq]
            exact hqlen
          rw [List.flatten_cons, List.flatten_cons] at hflat
          obtain ⟨hpb, htail⟩ := List.append_inj hflat (hplen.trans hb.symm)
          have hplaces : ∀ i < bs.length, ∃ q ∈ placed (pos + k) ps,
              q.1 = pos + k + k * i ∧ q.2.length = k := by
            intro i hi
            obtain ⟨q, hq, hplace, hqlen⟩ := h (i + 1) (by simpa using hi)
            have hnext : k * (i + 1) = k + k * i := by
              rw [Nat.mul_add]
              omega
            unfold placed at hq
            cases List.mem_cons.mp hq with
            | inl heq =>
                have hplace' : q.1 = pos := congrArg Prod.fst heq
                omega
            | inr hmem =>
                rw [hplen] at hmem
                exact ⟨q, hmem, by omega, hqlen⟩
          have hrest : ps = bs :=
            ih (fun p' hp' => hne p' (List.mem_cons_of_mem p hp'))
              (fun b' hb' => hlen b' (List.mem_cons_of_mem b hb')) htail hplaces
          rw [hpb, hrest]

end Acu.Core
