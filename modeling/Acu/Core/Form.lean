import Acu.Core.CMemory
import Mathlib.Algebra.Ring.Nat

/-!
# Forms

Names and values joined with `=` and `&`, and the decoder of the media type
`application/x-www-form-urlencoded`. Fields that were joined as they are come back
precisely when no value holds a separator or anything that is read as an escape.
-/

namespace Acu.Core.Form

/-! ## Decoding -/

def hexValue (c : UInt8) : Option Nat :=
  if 48 ≤ c ∧ c ≤ 57 then some (c.toNat - 48)
  else if 65 ≤ c ∧ c ≤ 70 then some (c.toNat - 55)
  else if 97 ≤ c ∧ c ≤ 102 then some (c.toNat - 87)
  else none

/-- The byte that `%` stands for with the two bytes behind it. -/
def escaped : Bytes → Option UInt8
  | h :: l :: _ =>
      match hexValue h, hexValue l with
      | some a, some b => some (a * 16 + b).toUInt8
      | _, _ => none
  | _ => none

/-- `+` is read as a blank and `%XX` as the byte it names; any other `%` stands for itself. -/
def unescape : Bytes → Bytes
  | [] => []
  | [c] => [if c = 43 then 32 else c]
  | [c, d] => (if c = 43 then 32 else c) :: unescape [d]
  | c :: h :: l :: rest =>
      if c = 37 then
        match escaped (h :: l :: rest) with
        | some b => b :: unescape rest
        | none => 37 :: unescape (h :: l :: rest)
      else (if c = 43 then 32 else c) :: unescape (h :: l :: rest)

/-- A piece is split at its first `=`. -/
def field (piece : Bytes) : Bytes × Bytes :=
  (unescape (piece.takeWhile (· ≠ 61)), unescape ((piece.dropWhile (· ≠ 61)).drop 1))

def decode (body : Bytes) : List (Bytes × Bytes) := (body.splitOn 38).map field

/-! ## Joining -/

/-- A name and a value as they are. -/
def piece (f : Bytes × Bytes) : Bytes := f.1 ++ 61 :: f.2

def joined (fs : List (Bytes × Bytes)) : Bytes := [38].intercalate (fs.map piece)

/-- Nothing of the text is read as an escape. -/
def Literal (v : Bytes) : Prop := 43 ∉ v ∧ ∀ u w, v = u ++ 37 :: w → escaped w = none

/-- Neither a separator nor an escape is read in a value. -/
def Clean (v : Bytes) : Prop := 38 ∉ v ∧ Literal v

/-- A name is read as it is. -/
def Name (n : Bytes) : Prop := 38 ∉ n ∧ 61 ∉ n ∧ unescape n = n

instance (n : Bytes) : Decidable (Name n) := inferInstanceAs (Decidable (_ ∧ _ ∧ _))

/-! ## Escapes -/

theorem Literal.tail {c : UInt8} {v : Bytes} (h : Literal (c :: v)) : Literal v :=
  ⟨fun hm => h.1 (List.mem_cons_of_mem _ hm), fun u w hv => h.2 (c :: u) w (by rw [hv]; rfl)⟩

theorem Literal.cons {c : UInt8} {v : Bytes} (hc : c ≠ 43) (he : c = 37 → escaped v = none)
    (h : Literal v) : Literal (c :: v) := by
  refine ⟨?_, fun u w hv => ?_⟩
  · rw [List.mem_cons, not_or]
    exact ⟨hc.symm, h.1⟩
  · cases u with
    | nil =>
        obtain ⟨rfl, rfl⟩ := List.cons.inj hv
        exact he rfl
    | cons b u => exact h.2 u w (List.cons.inj hv).2

theorem unescape_length (v : Bytes) : (unescape v).length ≤ v.length := by
  fun_induction unescape v with
  | case1 => simp
  | case2 => simp
  | case3 c d ih => simpa using ih
  | case4 h l rest b hb ih =>
      simp only [List.length_cons]
      omega
  | case5 h l rest hb ih => simpa using ih
  | case6 c h l rest hc ih => simpa using ih

/-- A letter that is not part of an escape is read by itself. -/
theorem cons_unescape_iff {c : UInt8} {v : Bytes} (hv : unescape v = v ↔ Literal v)
    (he : c = 37 → escaped v = none) :
    (if c = 43 then 32 else c) :: unescape v = c :: v ↔ Literal (c :: v) := by
  by_cases hc : c = 43
  · subst hc
    constructor
    · intro h
      exact absurd (List.cons.inj h).1 (by decide)
    · intro h
      exact absurd List.mem_cons_self h.1
  · rw [if_neg hc, List.cons.injEq, hv]
    constructor
    · intro h
      exact .cons hc he h.2
    · intro h
      exact ⟨rfl, h.tail⟩

theorem unescape_eq_iff (v : Bytes) : unescape v = v ↔ Literal v := by
  fun_induction unescape v with
  | case1 => simp [Literal]
  | case2 c =>
      have hnil : unescape [] = [] ↔ Literal [] := by simp [unescape, Literal]
      simpa [unescape] using cons_unescape_iff (c := c) hnil fun _ => rfl
  | case3 c d ih => exact cons_unescape_iff ih fun _ => rfl
  | case4 h l rest b hb ih =>
      constructor
      · intro heq
        have hlen := congrArg List.length heq
        have hle := unescape_length rest
        simp only [List.length_cons] at hlen
        omega
      · intro hlit
        rw [hlit.2 [] (h :: l :: rest) rfl] at hb
        cases hb
  | case5 h l rest hb ih => simpa using cons_unescape_iff (c := 37) ih fun _ => hb
  | case6 c h l rest hc ih => exact cons_unescape_iff ih fun h37 => absurd h37 hc

/-! ## Pieces -/

theorem intercalate_one (p : Bytes) : [38].intercalate [p] = p := by simp [List.intercalate]

theorem intercalate_more (p q : Bytes) (ps : List Bytes) :
    [38].intercalate (p :: q :: ps) = p ++ 38 :: [38].intercalate (q :: ps) := by
  simp [List.intercalate]

theorem splitOn_length (v : Bytes) : (v.splitOn 38).length = v.count 38 + 1 := by
  induction v with
  | nil => rfl
  | cons c cs ih =>
      rw [List.splitOn_cons_eq_if_modifyHead]
      by_cases hc : c = 38
      · simp [hc, ih]
      · simp [hc, ih]

theorem field_piece {n v : Bytes} (hn : Name n) : field (piece (n, v)) = (n, unescape v) := by
  have hkept : ∀ c ∈ n, decide (c ≠ 61) = true := fun c hc => by
    simpa using fun h : c = 61 => hn.2.1 (h ▸ hc)
  have htake : (n ++ 61 :: v).takeWhile (· ≠ 61) = n := by
    rw [List.takeWhile_append_of_pos hkept]
    simp
  have hdrop : (n ++ 61 :: v).dropWhile (· ≠ 61) = 61 :: v := by
    rw [List.dropWhile_append_of_pos hkept]
    simp
  rw [field, piece, htake, hdrop, hn.2.2]
  rfl

/-- The bytes of the names and values. -/
def size (fs : List (Bytes × Bytes)) : Nat := (fs.map fun f => f.1.length + f.2.length).sum

theorem field_length (p : Bytes) : (field p).1.length + (field p).2.length ≤ p.length := by
  have hname := unescape_length (p.takeWhile (· ≠ 61))
  have hvalue := unescape_length ((p.dropWhile (· ≠ 61)).drop 1)
  have hsplit := congrArg List.length (List.takeWhile_append_dropWhile (p := (· ≠ 61)) (l := p))
  rw [List.length_append] at hsplit
  rw [List.length_drop] at hvalue
  simp only [field]
  omega

/-- What a body is decoded to has no more bytes than it, and a separator between its fields. -/
theorem decode_size (body : Bytes) :
    size (decode body) + (decode body).length ≤ body.length + 1 := by
  have hpieces (ps : List Bytes) (hne : ps ≠ []) :
      size (ps.map field) + ps.length ≤ ([38].intercalate ps).length + 1 := by
    induction ps with
    | nil => exact absurd rfl hne
    | cons p ps ih =>
        have hp := field_length p
        cases ps with
        | nil =>
            rw [intercalate_one]
            simp only [size, List.map_cons, List.map_nil, List.sum_cons, List.sum_nil,
              List.length_cons, List.length_nil]
            omega
        | cons q ps =>
            have hrec := ih (by simp)
            rw [intercalate_more]
            simp only [size, List.map_cons, List.sum_cons, List.length_append, List.length_cons]
              at hrec ⊢
            omega
  have h := hpieces (body.splitOn 38) (List.splitOn_ne_nil 38 body)
  rw [List.intercalate_splitOn] at h
  rw [decode, List.length_map]
  exact h

section Fields

variable {fs : List (Bytes × Bytes)}

theorem count_joined (hne : fs ≠ []) (hnames : ∀ f ∈ fs, Name f.1) :
    (joined fs).count 38 + 1 = fs.length + (fs.map fun f => f.2.count 38).sum := by
  induction fs with
  | nil => exact absurd rfl hne
  | cons f fs ih =>
      have hf : f.1.count 38 = 0 := List.count_eq_zero.mpr (hnames f List.mem_cons_self).1
      have hpiece : (piece f).count 38 = f.2.count 38 := by simp [piece, hf]
      cases fs with
      | nil => simp [joined, hpiece, Nat.add_comm]
      | cons g fs =>
          have hrec := ih (by simp) fun f hf => hnames f (List.mem_cons_of_mem _ hf)
          have hcons : joined (f :: g :: fs) = piece f ++ 38 :: joined (g :: fs) :=
            intercalate_more _ _ _
          rw [hcons, List.count_append, List.count_cons_self, hpiece, List.length_cons,
            List.map_cons, List.sum_cons]
          omega

theorem joined_length (hne : fs ≠ []) : (joined fs).length + 1 = size fs + 2 * fs.length := by
  induction fs with
  | nil => exact absurd rfl hne
  | cons f fs ih =>
      cases fs with
      | nil =>
          rw [joined, List.map_singleton, intercalate_one]
          simp only [piece, size, List.map_cons, List.map_nil, List.sum_cons, List.sum_nil,
            List.length_append, List.length_cons, List.length_nil]
          omega
      | cons g fs =>
          have hrec := ih (by simp)
          have hcons : joined (f :: g :: fs) = piece f ++ 38 :: joined (g :: fs) :=
            intercalate_more _ _ _
          rw [hcons]
          simp only [piece, size, List.map_cons, List.sum_cons, List.length_append,
            List.length_cons] at hrec ⊢
          omega

/-- Fields that were joined as they are come back precisely when their values are clean. -/
theorem decode_joined_iff (hne : fs ≠ []) (hnames : ∀ f ∈ fs, Name f.1) :
    decode (joined fs) = fs ↔ ∀ f ∈ fs, Clean f.2 := by
  have hread (hamp : ∀ f ∈ fs, 38 ∉ f.2) :
      decode (joined fs) = fs.map fun f => (f.1, unescape f.2) := by
    have hsplit : (joined fs).splitOn 38 = fs.map piece := by
      refine List.splitOn_intercalate 38 ?_ (by simpa using hne)
      intro l hl
      obtain ⟨f, hf, rfl⟩ := List.mem_map.mp hl
      simpa [piece] using ⟨(hnames f hf).1, hamp f hf⟩
    rw [decode, hsplit, List.map_map]
    exact List.map_congr_left fun f hf => field_piece (hnames f hf)
  constructor
  · intro h
    have hlen : (joined fs).count 38 + 1 = fs.length := by
      rw [← splitOn_length, ← congrArg List.length h, decode, List.length_map]
    have hcount := count_joined hne hnames
    have hamp : ∀ f ∈ fs, 38 ∉ f.2 := by
      intro f hf
      have hsum : (fs.map fun f => f.2.count 38).sum = 0 := by omega
      have hzero := List.sum_eq_zero_iff_forall_eq_nat.mp hsum _ (List.mem_map_of_mem hf)
      exact List.count_eq_zero.mp hzero
    rw [hread hamp] at h
    intro f hf
    have heq := List.map_inj_left.mp (h.trans (List.map_id' fs).symm) f hf
    exact ⟨hamp f hf, (unescape_eq_iff f.2).mp (congrArg Prod.snd heq)⟩
  · intro h
    rw [hread fun f hf => (h f hf).1]
    calc
      fs.map (fun f => (f.1, unescape f.2)) = fs.map fun f => f :=
        List.map_congr_left fun f hf => Prod.ext rfl ((unescape_eq_iff f.2).mpr (h f hf).2)
      _ = fs := List.map_id' fs

end Fields

end Acu.Core.Form
