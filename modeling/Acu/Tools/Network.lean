import Acu.Core.Search

/-!
# Is it an address?

`isIPv4` runs an automaton over a string and counts the dots. Its loop goes on as long
as the pointer is not null, which it never is: the NUL at the end is one more letter
for the automaton, and one that no state takes.
-/

namespace Acu.Tools.Network

open Acu.Core Acu.Core.CMemory

/-- The `switch` on `*p`: the state and the number of dots behind it, or `return false`. -/
def advance (state count : Nat) (c : UInt8) : Option (Nat × Nat) :=
  match state with
  | 0 => if isDigit c then some (1, count) else none
  | 1 => if isDigit c then some (2, count) else if c = 46 then some (0, count + 1) else none
  | 2 => if isDigit c then some (3, count) else if c = 46 then some (0, count + 1) else none
  | 3 => if c = 46 then some (0, count + 1) else none
  | state => some (state, count)

/-- `while(p)`, with `p` at the start of what is left of the memory: a pointer that has been
moved on is not null. Behind the memory nothing can be read. -/
def scan : Bytes → Nat → Nat → Option Bool
  | [], _, _ => none
  | c :: cs, state, count =>
      match advance state count c with
      | none => some false
      | some (state, count) => scan cs state count

/-- `isIPv4(str)`; with a null pointer the loop is left at once. -/
def isIPv4 (m : Bytes) : Option Nat → Option Bool
  | none =>
      let count := 0
      some (count == 3)
  | some str => scan (m.drop str) 0 0

/-! ## Addresses -/

/-- One to three decimal digits. -/
structure Group (g : Bytes) : Prop where
  pos : 1 ≤ g.length
  le : g.length ≤ 3
  digits : ∀ c ∈ g, isDigit c = true

/-- Four groups with single dots between them. -/
def Address (s : Bytes) : Prop :=
  ∃ a b c d, Group a ∧ Group b ∧ Group c ∧ Group d ∧
    s = a ++ 46 :: (b ++ 46 :: (c ++ 46 :: d))

/-- The call reads the string and its NUL and nothing behind them, and tells addresses from other
strings. -/
def Decides (s : Bytes) : Prop :=
  ∃ b, (∀ pre rest : Bytes, isIPv4 (pre ++ (s ++ 0 :: rest)) (some pre.length) = some b) ∧
    (b = true ↔ Address s)

/-! ## What the loop does -/

/-- The states the automaton can be in. -/
theorem advance_le {state count state' count' : Nat} {c : UInt8} (h : state ≤ 3)
    (hround : advance state count c = some (state', count')) : state' ≤ 3 := by
  unfold advance at hround
  split at hround
  · split at hround <;> cases hround
    omega
  · split at hround
    · cases hround; omega
    · split at hround <;> cases hround
      omega
  · split at hround
    · cases hround; omega
    · split at hround <;> cases hround
      omega
  · split at hround <;> cases hround
    omega
  · cases hround
    exact h

/-- None of them takes a NUL. -/
theorem advance_nul {state : Nat} (h : state ≤ 3) (count : Nat) : advance state count 0 = none := by
  have hstate : state = 0 ∨ state = 1 ∨ state = 2 ∨ state = 3 := by omega
  rcases hstate with rfl | rfl | rfl | rfl <;> rfl

/-- The loop ends at the NUL at the latest, and always with `return false`. -/
theorem scan_false {state : Nat} (h : state ≤ 3) (count : Nat) (s rest : Bytes) :
    scan (s ++ 0 :: rest) state count = some false := by
  induction s generalizing state count with
  | nil => rw [List.nil_append, scan, advance_nul h count]
  | cons c s ih =>
      rw [List.cons_append, scan]
      cases hround : advance state count c with
      | none => rfl
      | some next => exact ih (advance_le h hround) next.2

theorem isIPv4_false (pre s rest : Bytes) :
    isIPv4 (pre ++ (s ++ 0 :: rest)) (some pre.length) = some false := by
  rw [isIPv4, List.drop_left]
  exact scan_false (Nat.zero_le 3) 0 s rest

/-! ## Where the loop stands at the end of an address -/

/-- The automaton over a text that it takes. -/
def follow : Nat × Nat → Bytes → Option (Nat × Nat)
  | now, [] => some now
  | now, c :: cs => (advance now.1 now.2 c).bind fun next => follow next cs

theorem follow_append (now : Nat × Nat) (s t : Bytes) :
    follow now (s ++ t) = (follow now s).bind fun next => follow next t := by
  induction s generalizing now with
  | nil => rfl
  | cons c s ih =>
      rw [List.cons_append, follow, follow]
      cases advance now.1 now.2 c with
      | none => rfl
      | some next => exact ih next

/-- A text that the automaton takes is passed over. -/
theorem scan_follow {now next : Nat × Nat} {s : Bytes} (h : follow now s = some next)
    (t : Bytes) : scan (s ++ t) now.1 now.2 = scan t next.1 next.2 := by
  induction s generalizing now with
  | nil =>
      cases h
      rfl
  | cons c s ih =>
      rw [follow] at h
      obtain ⟨now', hround, h⟩ := Option.bind_eq_some_iff.mp h
      rw [List.cons_append, scan, hround]
      exact ih h

/-- A group leads to the state of its length. -/
theorem follow_group {g : Bytes} (h : Group g) (count : Nat) :
    follow (0, count) g = some (g.length, count) := by
  have hdigits := h.digits
  have hpos := h.pos
  have hle := h.le
  match g, hpos, hle, hdigits with
  | [a], _, _, hdigits => simp [follow, advance, hdigits a]
  | [a, b], _, _, hdigits => simp [follow, advance, hdigits a, hdigits b]
  | [a, b, c], _, _, hdigits => simp [follow, advance, hdigits a, hdigits b, hdigits c]

theorem follow_dot {g : Bytes} (h : Group g) (count : Nat) (t : Bytes) :
    follow (0, count) (g ++ 46 :: t) = follow (0, count + 1) t := by
  have hdot : advance g.length count 46 = some (0, count + 1) := by
    have hpos := h.pos
    have hle := h.le
    have hlength : g.length = 1 ∨ g.length = 2 ∨ g.length = 3 := by omega
    rcases hlength with hg | hg | hg <;> rw [hg] <;> rfl
  rw [follow_append, follow_group h]
  change (advance g.length count 46).bind _ = _
  rw [hdot]
  rfl

/-- At the NUL behind an address the three dots are counted, and nothing asks for them. -/
theorem follow_address {s : Bytes} (h : Address s) :
    ∃ state, 1 ≤ state ∧ state ≤ 3 ∧ follow (0, 0) s = some (state, 3) := by
  rcases h with ⟨a, b, c, d, ha, hb, hc, hd, rfl⟩
  refine ⟨d.length, hd.pos, hd.le, ?_⟩
  rw [follow_dot ha, follow_dot hb, follow_dot hc, follow_group hd]

/-- So the NUL is looked at with all of the address behind it, and refused. -/
theorem scan_address {s : Bytes} (h : Address s) (rest : Bytes) :
    ∃ state, 1 ≤ state ∧ scan (s ++ 0 :: rest) 0 0 = scan (0 :: rest) state 3 := by
  obtain ⟨state, hpos, -, hfollow⟩ := follow_address h
  exact ⟨state, hpos, scan_follow hfollow (0 :: rest)⟩

/-- The call never says yes, so that it is right about the strings that are no addresses, and
about no other one. -/
theorem isIPv4_decides_iff (s : Bytes) : Decides s ↔ ¬ Address s := by
  constructor
  · intro h haddress
    rcases h with ⟨b, hcall, hyes⟩
    have hfalse := hcall [] []
    rw [isIPv4_false, hyes.mpr haddress] at hfalse
    cases hfalse
  · intro h
    exact ⟨false, fun pre rest => isIPv4_false pre s rest, iff_of_false Bool.false_ne_true h⟩

theorem gate_address : Address (ascii "10.9.0.2") := by
  refine ⟨ascii "10", ascii "9", ascii "0", ascii "2", ?_, ?_, ?_, ?_, by decide +kernel⟩ <;>
    constructor <;> decide +kernel

/-- The address of a gate is none. -/
theorem gate_address_refused : ¬ Decides (ascii "10.9.0.2") := by
  intro h
  rcases h with ⟨b, hcall, hyes⟩
  have hfalse := hcall [] []
  rw [isIPv4_false, hyes.mpr gate_address] at hfalse
  cases hfalse

end Acu.Tools.Network
