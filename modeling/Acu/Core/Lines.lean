import Acu.Core.CMemory

/-!
# Text read by lines

`fgets` hands out a text in pieces: a piece ends behind a line feed or where the array
is full.
-/

namespace Acu.Core.CMemory

/-- The next `n` bytes at most, up to a line feed, and what is left. -/
def fgets : Nat → Bytes → Bytes × Bytes
  | 0, file => ([], file)
  | _ + 1, [] => ([], [])
  | n + 1, c :: file => if c = 10 then ([c], file) else ((fgets n file).1.cons c, (fgets n file).2)

def fgetsLoop (n : Nat) : Nat → Bytes → List Bytes
  | 0, _ => []
  | fuel + 1, file =>
      if file = [] then [] else (fgets n file).1 :: fgetsLoop n fuel (fgets n file).2

/-- What the calls of `fgets` with an array of `n + 1` bytes return up to the null pointer. -/
def fgetsAll (n : Nat) (file : Bytes) : List Bytes := fgetsLoop n file.length file

/-- The lines that are over in a text, each with its line feed, the first behind what was read
of it before. -/
def finishedLines (line : Bytes) : Bytes → List Bytes
  | [] => []
  | c :: cs =>
      if c = 10 then (line ++ [10]) :: finishedLines [] cs else finishedLines (line ++ [c]) cs

/-- A text that is over at the end of a line. -/
def EndsLine (text : Bytes) : Prop := text = [] ∨ ∃ l, text = l ++ [10]

/-! ## One piece -/

theorem fgets_append (n : Nat) (file : Bytes) : (fgets n file).1 ++ (fgets n file).2 = file := by
  induction n generalizing file with
  | zero => rfl
  | succ n ih =>
      cases file with
      | nil => rfl
      | cons c file =>
          rw [fgets]
          split
          · rfl
          · rw [List.cons_append, ih]

theorem fgets_length (n : Nat) (file : Bytes) : (fgets n file).1.length ≤ n := by
  induction n generalizing file with
  | zero => exact Nat.le_refl 0
  | succ n ih =>
      cases file with
      | nil => exact Nat.zero_le _
      | cons c file =>
          rw [fgets]
          split
          · exact Nat.succ_le_succ (Nat.zero_le n)
          · exact Nat.succ_le_succ (ih file)

/-- Something is read as long as something is left. -/
theorem fgets_rest_length {n : Nat} (hn : 0 < n) {file : Bytes} (hfile : file ≠ []) :
    (fgets n file).2.length < file.length := by
  obtain ⟨n, rfl⟩ := Nat.exists_eq_succ_of_ne_zero (Nat.ne_of_gt hn)
  cases file with
  | nil => exact absurd rfl hfile
  | cons c file =>
      rw [fgets]
      split
      · exact Nat.lt_succ_self _
      · have hcut := congrArg List.length (fgets_append n file)
        rw [List.length_append] at hcut
        show (fgets n file).2.length < file.length + 1
        omega

/-- A line that fits is read with its line feed. -/
theorem fgets_line {n : Nat} {l : Bytes} (hl : 10 ∉ l) (hn : l.length < n) (rest : Bytes) :
    fgets n (l ++ 10 :: rest) = (l ++ [10], rest) := by
  induction l generalizing n with
  | nil =>
      cases n with
      | zero => exact absurd hn (Nat.lt_irrefl 0)
      | succ n => rfl
  | cons c l ih =>
      obtain ⟨hc, hl⟩ := not_or.mp (mt List.mem_cons.mpr hl)
      cases n with
      | zero => exact absurd hn (Nat.not_lt_zero _)
      | succ n =>
          rw [List.cons_append, fgets, if_neg (Ne.symm hc), ih hl (Nat.lt_of_succ_lt_succ hn)]
          rfl

/-- A longer one is cut where the array is full. -/
theorem fgets_full {l : Bytes} (hl : 10 ∉ l) (rest : Bytes) :
    fgets l.length (l ++ rest) = (l, rest) := by
  induction l with
  | nil => rfl
  | cons c l ih =>
      obtain ⟨hc, hl⟩ := not_or.mp (mt List.mem_cons.mpr hl)
      rw [List.cons_append, List.length_cons, fgets, if_neg (Ne.symm hc), ih hl]

/-- The piece that is read first does not depend on what follows a line feed. -/
theorem fgets_append_right (n : Nat) (l rest : Bytes) :
    fgets n (l ++ 10 :: rest) = ((fgets n (l ++ [10])).1, (fgets n (l ++ [10])).2 ++ rest) := by
  induction n generalizing l with
  | zero => exact Prod.ext rfl (by simp [fgets])
  | succ n ih =>
      cases l with
      | nil => rfl
      | cons c l =>
          rw [List.cons_append, List.cons_append, fgets, fgets]
          split
          · exact Prod.ext rfl (by simp)
          · rw [ih]

/-- What is left of a text that ends a line does so too. -/
theorem fgets_rest_endsLine (n : Nat) {text : Bytes} (h : EndsLine text) :
    EndsLine (fgets n text).2 := by
  induction n generalizing text with
  | zero => exact h
  | succ n ih =>
      rcases h with rfl | ⟨l, rfl⟩
      · exact .inl rfl
      · cases l with
        | nil => exact .inl rfl
        | cons c l =>
            rw [List.cons_append, fgets]
            split
            · exact .inr ⟨l, rfl⟩
            · exact ih (.inr ⟨l, rfl⟩)

/-! ## All pieces -/

section Pieces

variable {n : Nat} (hn : 0 < n)

include hn in
theorem fgetsLoop_fuel {f₁ f₂ : Nat} {file : Bytes} (h₁ : file.length ≤ f₁)
    (h₂ : file.length ≤ f₂) : fgetsLoop n f₁ file = fgetsLoop n f₂ file := by
  induction f₁ generalizing f₂ file with
  | zero =>
      obtain rfl := List.eq_nil_of_length_eq_zero (Nat.le_zero.mp h₁)
      cases f₂ <;> rfl
  | succ f₁ ih =>
      by_cases hfile : file = []
      · subst hfile
        cases f₂ <;> rfl
      · have hrest := fgets_rest_length hn hfile
        cases f₂ with
        | zero =>
            exact absurd (List.eq_nil_of_length_eq_zero (Nat.le_zero.mp h₂)) hfile
        | succ f₂ =>
            have hloop : fgetsLoop n f₁ (fgets n file).2 = fgetsLoop n f₂ (fgets n file).2 :=
              ih (by omega) (by omega)
            rw [fgetsLoop, fgetsLoop, if_neg hfile, if_neg hfile, hloop]

@[simp] theorem fgetsAll_nil : fgetsAll n [] = [] := rfl

include hn in
theorem fgetsAll_of_ne_nil {file : Bytes} (hfile : file ≠ []) :
    fgetsAll n file = (fgets n file).1 :: fgetsAll n (fgets n file).2 := by
  have hrest := fgets_rest_length hn hfile
  obtain ⟨k, hk⟩ : ∃ k, file.length = k + 1 :=
    Nat.exists_eq_succ_of_ne_zero (mt List.eq_nil_of_length_eq_zero hfile)
  unfold fgetsAll
  rw [hk, fgetsLoop, if_neg hfile,
    fgetsLoop_fuel hn (by omega) (Nat.le_refl (fgets n file).2.length)]

include hn in
/-- Behind the end of a line the reading begins anew. -/
theorem fgetsAll_append {text : Bytes} (h : EndsLine text) (rest : Bytes) :
    fgetsAll n (text ++ rest) = fgetsAll n text ++ fgetsAll n rest := by
  induction hlen : text.length using Nat.strongRecOn generalizing text with
  | ind k ih =>
      by_cases htext : text = []
      · subst htext
        rfl
      · have hrest := fgets_rest_length hn htext
        have hends := fgets_rest_endsLine n h
        obtain ⟨l, rfl⟩ := h.resolve_left htext
        have hfirst := fgets_append_right n l rest
        rw [List.append_assoc, List.singleton_append, fgetsAll_of_ne_nil hn (by simp), hfirst,
          fgetsAll_of_ne_nil hn htext, List.cons_append]
        rw [ih _ (hlen ▸ hrest) hends rfl]

theorem fgetsAll_line {l : Bytes} (hl : 10 ∉ l) (hlength : l.length < n) (rest : Bytes) :
    fgetsAll n (l ++ 10 :: rest) = (l ++ [10]) :: fgetsAll n rest := by
  rw [fgetsAll_of_ne_nil (Nat.zero_lt_of_lt hlength) (by simp), fgets_line hl hlength rest]

include hn in
theorem fgetsAll_full {l : Bytes} (hl : 10 ∉ l) (hlength : l.length = n) (rest : Bytes) :
    fgetsAll n (l ++ rest) = l :: fgetsAll n rest := by
  have hne : l ++ rest ≠ [] := by
    intro h
    rw [(List.append_eq_nil_iff.mp h).1] at hlength
    exact Nat.ne_of_gt hn hlength.symm
  have hcut := fgets_full hl rest
  rw [hlength] at hcut
  rw [fgetsAll_of_ne_nil hn hne, hcut]

end Pieces

/-! ## Lines as they come in -/

theorem finishedLines_line {l : Bytes} (hl : 10 ∉ l) (line rest : Bytes) :
    finishedLines line (l ++ 10 :: rest) = (line ++ l ++ [10]) :: finishedLines [] rest := by
  induction l generalizing line with
  | nil => simp [finishedLines]
  | cons c l ih =>
      obtain ⟨hc, hl⟩ := not_or.mp (mt List.mem_cons.mpr hl)
      rw [List.cons_append, finishedLines, if_neg (Ne.symm hc), ih hl, List.append_assoc line]
      rfl

/-- Texts without line feeds, sent as lines. -/
theorem finishedLines_flatMap {ls : List Bytes} (h : ∀ l ∈ ls, 10 ∉ l) :
    finishedLines [] (ls.flatMap fun l => l ++ [10]) = ls.map fun l => l ++ [10] := by
  induction ls with
  | nil => rfl
  | cons l ls ih =>
      obtain ⟨hl, hls⟩ := List.forall_mem_cons.mp h
      rw [List.flatMap_cons, List.append_assoc, List.singleton_append, finishedLines_line hl,
        ih hls]
      rfl

end Acu.Core.CMemory
