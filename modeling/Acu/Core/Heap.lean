import Mathlib.Tactic.Common

/-!
# Objects behind pointers

A pointer is the position of its object in the list of all objects created so
far, so that no address is given out twice. A deleted object keeps its value as
history, but cannot be read through its pointer any more.
-/

namespace Acu.Core

variable {α : Type}

structure Slot (α : Type) where
  value : α
  live : Bool
  deriving DecidableEq, Repr

abbrev Heap (α : Type) := List (Slot α)

namespace Heap

def deref (h : Heap α) (a : Nat) : Option α :=
  h[a]?.bind fun s => if s.live then some s.value else none

/-- What was stored at an address when it was created. -/
def content (h : Heap α) (a : Nat) : Option α := h[a]?.map Slot.value

def allocAll (h : Heap α) (vs : List α) : Heap α := h ++ vs.map fun v => ⟨v, true⟩

def free (h : Heap α) (a : Nat) : Heap α := h.modify a fun s => { s with live := false }

def freeAll (h : Heap α) (as : List Nat) : Heap α := as.foldl free h

/-- The addresses that `allocAll` gives to `vs`. -/
def newAddresses (h : Heap α) (vs : List α) : List Nat := List.range' h.length vs.length

theorem content_of_deref {h : Heap α} {a : Nat} {v : α} (hd : deref h a = some v) :
    content h a = some v := by
  obtain ⟨s, hs, hv⟩ := Option.bind_eq_some_iff.mp hd
  split at hv
  · rw [content, hs, Option.map_some, hv]
  · cases hv

/-! ## Creation -/

@[simp] theorem length_allocAll (h : Heap α) (vs : List α) :
    (allocAll h vs).length = h.length + vs.length := by
  simp [allocAll]

theorem deref_allocAll_old {h : Heap α} {a : Nat} (ha : a < h.length) (vs : List α) :
    deref (allocAll h vs) a = deref h a := by
  rw [deref, deref, allocAll, List.getElem?_append_left ha]

theorem deref_allocAll_new (h : Heap α) (vs : List α) (i : Nat) :
    deref (allocAll h vs) (h.length + i) = vs[i]? := by
  rw [deref, allocAll, List.getElem?_append_right (Nat.le_add_right _ _), Nat.add_sub_cancel_left,
    List.getElem?_map]
  cases vs[i]? with
  | none => rfl
  | some v => rfl

theorem content_allocAll_old {h : Heap α} {a : Nat} (ha : a < h.length) (vs : List α) :
    content (allocAll h vs) a = content h a := by
  rw [content, content, allocAll, List.getElem?_append_left ha]

theorem lt_length_of_content {h : Heap α} {a : Nat} {v : α} (hc : content h a = some v) :
    a < h.length := by
  obtain ⟨s, hs, _⟩ := Option.map_eq_some_iff.mp hc
  exact (List.getElem?_eq_some_iff.mp hs).1

theorem lt_length_of_deref {h : Heap α} {a : Nat} {v : α} (hd : deref h a = some v) :
    a < h.length := lt_length_of_content (content_of_deref hd)

/-- The new addresses hold the new values, in their order. -/
theorem map_deref_newAddresses (h : Heap α) (vs : List α) :
    (newAddresses h vs).map (deref (allocAll h vs)) = vs.map some := by
  refine List.ext_getElem? fun i => ?_
  rw [newAddresses, List.getElem?_map, List.getElem?_map]
  by_cases hi : i < vs.length
  · rw [List.getElem?_range' hi, Option.map_some, Nat.one_mul, deref_allocAll_new,
      List.getElem?_eq_getElem hi]
    rfl
  · have hlen : (List.range' h.length vs.length).length ≤ i := by simpa using hi
    rw [List.getElem?_eq_none hlen, List.getElem?_eq_none (Nat.le_of_not_lt hi)]
    rfl

/-! ## Deletion -/

@[simp] theorem length_free (h : Heap α) (a : Nat) : (free h a).length = h.length := by
  simp [free]

@[simp] theorem length_freeAll (h : Heap α) (as : List Nat) :
    (freeAll h as).length = h.length := by
  induction as generalizing h with
  | nil => rfl
  | cons a as ih => rw [freeAll, List.foldl_cons]; exact (ih _).trans (length_free h a)

@[simp] theorem content_free (h : Heap α) (a b : Nat) : content (free h a) b = content h b := by
  rw [content, content, free, List.getElem?_modify]
  cases h[b]? with
  | none => rfl
  | some s => by_cases hab : a = b <;> simp [hab]

@[simp] theorem content_freeAll (h : Heap α) (as : List Nat) (b : Nat) :
    content (freeAll h as) b = content h b := by
  induction as generalizing h with
  | nil => rfl
  | cons a as ih => rw [freeAll, List.foldl_cons]; exact (ih _).trans (content_free h a b)

theorem deref_free_self (h : Heap α) (a : Nat) : deref (free h a) a = none := by
  rw [deref, free, List.getElem?_modify]
  cases h[a]? with
  | none => rfl
  | some s => simp

theorem deref_free_of_ne {h : Heap α} {a b : Nat} (hab : a ≠ b) :
    deref (free h a) b = deref h b := by
  have hslot : (free h a)[b]? = h[b]? := by simp [free, hab]
  rw [deref, deref, hslot]

theorem deref_freeAll_of_none {h : Heap α} {b : Nat} (hb : deref h b = none) (as : List Nat) :
    deref (freeAll h as) b = none := by
  induction as generalizing h with
  | nil => exact hb
  | cons a as ih =>
      rw [freeAll, List.foldl_cons]
      refine ih ?_
      by_cases hab : a = b
      · rw [hab]; exact deref_free_self h b
      · rw [deref_free_of_ne hab]; exact hb

theorem deref_freeAll_of_mem {h : Heap α} {b : Nat} {as : List Nat} (hb : b ∈ as) :
    deref (freeAll h as) b = none := by
  induction as generalizing h with
  | nil => cases hb
  | cons a as ih =>
      rw [freeAll, List.foldl_cons]
      rcases List.mem_cons.mp hb with rfl | hb
      · exact deref_freeAll_of_none (deref_free_self h b) as
      · exact ih hb

end Heap

end Acu.Core
