import Acu.Core.CMemory
import Mathlib.Logic.Function.Basic

/-!
# Files, file programs and the states a power loss can leave

A disk maps paths to file contents. A program over it is observed by the ordered
list of its file events, which is what a power loss cuts short, and by its value,
which is missing when the call never returns. Notes are events of the history
that change no file.
-/

namespace Acu.Core

variable {π μ α β : Type} [DecidableEq π]

abbrev Disk (π : Type) := π → Option Bytes

/-! ## File events -/

inductive FileEvent (π μ : Type) where
  | create (path : π)
  | append (path : π) (bytes : Bytes)
  | remove (path : π)
  | rename (source target : π)
  | note (n : μ)
  deriving DecidableEq, Repr

namespace FileEvent

/-- The disk after one event: creation truncates, a missing file is left missing. -/
def apply (d : Disk π) : FileEvent π μ → Disk π
  | .create p => Function.update d p (some [])
  | .append p bytes =>
      match d p with
      | some old => Function.update d p (some (old ++ bytes))
      | none => d
  | .remove p => Function.update d p none
  | .rename a b =>
      match d a with
      | some bytes => Function.update (Function.update d a none) b (some bytes)
      | none => d
  | .note _ => d

def touched : FileEvent π μ → List π
  | .create p | .append p _ | .remove p => [p]
  | .rename a b => [a, b]
  | .note _ => []

def replay (d : Disk π) (es : List (FileEvent π μ)) : Disk π := es.foldl apply d

@[simp] theorem replay_nil (d : Disk π) : replay d ([] : List (FileEvent π μ)) = d := rfl

@[simp] theorem replay_cons (d : Disk π) (e : FileEvent π μ) (es : List (FileEvent π μ)) :
    replay d (e :: es) = replay (apply d e) es := rfl

@[simp] theorem replay_append (d : Disk π) (es fs : List (FileEvent π μ)) :
    replay d (es ++ fs) = replay (replay d es) fs := List.foldl_append

@[simp] theorem apply_create_self (d : Disk π) (p : π) :
    apply d (.create p : FileEvent π μ) p = some [] := Function.update_self p _ d

@[simp] theorem apply_remove_self (d : Disk π) (p : π) :
    apply d (.remove p : FileEvent π μ) p = none := Function.update_self p _ d

theorem apply_frame (d : Disk π) (e : FileEvent π μ) (p : π) (h : p ∉ e.touched) :
    apply d e p = d p := by
  cases e with
  | create q | remove q =>
      exact Function.update_of_ne (by simpa [touched] using h) _ _
  | append q bytes =>
      cases hq : d q with
      | none => simp only [apply, hq]
      | some old =>
          simp only [apply, hq]
          exact Function.update_of_ne (by simpa [touched] using h) _ _
  | rename a b =>
      obtain ⟨ha, hb⟩ : p ≠ a ∧ p ≠ b := by simpa [touched] using h
      cases hs : d a with
      | none => simp only [apply, hs]
      | some bytes =>
          simp only [apply, hs]
          rw [Function.update_of_ne hb, Function.update_of_ne ha]
  | note n => rfl

/-- A file that no event touches keeps its content. -/
theorem replay_frame (d : Disk π) (es : List (FileEvent π μ)) (p : π)
    (h : ∀ e ∈ es, p ∉ e.touched) : replay d es p = d p := by
  induction es generalizing d with
  | nil => rfl
  | cons e es ih =>
      rw [replay_cons, ih _ (fun f hf => h f (List.mem_cons_of_mem _ hf)),
        apply_frame d e p (h e List.mem_cons_self)]

end FileEvent

/-! ## File programs -/

structure Observed (π μ α : Type) where
  events : List (FileEvent π μ)
  value : Option α

def FileProg (π μ α : Type) := Disk π → Observed π μ α

namespace FileProg

def emit (e : FileEvent π μ) : FileProg π μ Unit := fun _ => ⟨[e], some ()⟩

/-- A call that never returns: it crashed, or waits for ever. -/
def stuck : FileProg π μ α := fun _ => ⟨[], none⟩

def ofOption : Option α → FileProg π μ α
  | some a => fun _ => ⟨[], some a⟩
  | none => stuck

def contents (p : π) : FileProg π μ (Option Bytes) := fun d => ⟨[], some (d p)⟩

instance : Monad (FileProg π μ) where
  pure a := fun _ => ⟨[], some a⟩
  bind x f := fun d =>
    let first := x d
    match first.value with
    | none => ⟨first.events, none⟩
    | some a =>
        let second := f a (FileEvent.replay d first.events)
        ⟨first.events ++ second.events, second.value⟩

theorem pure_apply (a : α) (d : Disk π) : (pure a : FileProg π μ α) d = ⟨[], some a⟩ := rfl

@[simp] theorem ofOption_some (a : α) : (ofOption (some a) : FileProg π μ α) = pure a := rfl

omit [DecidableEq π] in
@[simp] theorem ofOption_none : (ofOption none : FileProg π μ α) = stuck := rfl

omit [DecidableEq π] in
@[simp] theorem ofOption_value (o : Option α) (d : Disk π) :
    (ofOption o d : Observed π μ α).value = o := by
  cases o <;> rfl

@[simp] theorem pure_bind (a : α) (f : α → FileProg π μ β) : (pure a >>= f) = f a := rfl

@[simp] theorem stuck_bind (f : α → FileProg π μ β) : (stuck >>= f) = stuck := rfl

theorem bind_apply (x : FileProg π μ α) (f : α → FileProg π μ β) (d : Disk π) :
    (x >>= f) d =
      match (x d).value with
      | none => ⟨(x d).events, none⟩
      | some a =>
          ⟨(x d).events ++ (f a (FileEvent.replay d (x d).events)).events,
            (f a (FileEvent.replay d (x d).events)).value⟩ := rfl

theorem bind_of_none {x : FileProg π μ α} {d : Disk π} (f : α → FileProg π μ β)
    (h : (x d).value = none) : (x >>= f) d = ⟨(x d).events, none⟩ := by
  rw [bind_apply, h]

theorem bind_of_some {x : FileProg π μ α} {d : Disk π} {a : α} (f : α → FileProg π μ β)
    (h : (x d).value = some a) :
    (x >>= f) d = ⟨(x d).events ++ (f a (FileEvent.replay d (x d).events)).events,
      (f a (FileEvent.replay d (x d).events)).value⟩ := by
  rw [bind_apply, h]

/-- A computation without file events. -/
theorem ofOption_bind_pure (o : Option α) (f : α → β) (d : Disk π) :
    ((ofOption o : FileProg π μ α) >>= fun a => pure (f a)) d = ⟨[], o.map f⟩ := by
  cases o with
  | none => rfl
  | some a => rfl

/-- A computation that is missing has no value, and no event, behind it. -/
theorem ofOption_bind_value {o : Option α} {f : α → FileProg π μ β} {d : Disk π} {b : β} :
    ((ofOption o >>= f) d).value = some b ↔ ∃ a, o = some a ∧ (f a d).value = some b := by
  cases o with
  | none => simp [stuck]
  | some a => simp

@[simp] theorem contents_bind (p : π) (f : Option Bytes → FileProg π μ α) (d : Disk π) :
    (contents p >>= f) d = f (d p) d := rfl

@[simp] theorem emit_bind (e : FileEvent π μ) (f : Unit → FileProg π μ α) (d : Disk π) :
    (emit e >>= f) d = ⟨e :: (f () (FileEvent.apply d e)).events,
      (f () (FileEvent.apply d e)).value⟩ := rfl

/-- Every event the program performs, from any disk, satisfies `E`. -/
def Emits (E : FileEvent π μ → Prop) (x : FileProg π μ α) : Prop :=
  ∀ d, ∀ e ∈ (x d).events, E e

section Emits

variable {E : FileEvent π μ → Prop}

theorem Emits.pure (a : α) : Emits E (Pure.pure a : FileProg π μ α) := by
  intro d e he
  simp [pure_apply] at he

omit [DecidableEq π] in
theorem Emits.stuck : Emits E (stuck : FileProg π μ α) := by
  intro d e he
  simp [FileProg.stuck] at he

theorem Emits.ofOption (o : Option α) : Emits E (ofOption o : FileProg π μ α) := by
  cases o with
  | none => exact Emits.stuck
  | some a => exact Emits.pure a

omit [DecidableEq π] in
theorem Emits.contents (p : π) : Emits E (contents p : FileProg π μ (Option Bytes)) := by
  intro d e he
  simp [FileProg.contents] at he

omit [DecidableEq π] in
theorem Emits.emit {e : FileEvent π μ} (h : E e) : Emits E (emit e) := by
  intro d f hf
  rw [List.mem_singleton.mp hf]
  exact h

theorem Emits.bind {x : FileProg π μ α} {f : α → FileProg π μ β} (hx : Emits E x)
    (hf : ∀ a, Emits E (f a)) : Emits E (x >>= f) := by
  intro d e he
  cases hv : (x d).value with
  | none =>
      rw [bind_of_none f hv] at he
      exact hx d e he
  | some a =>
      rw [bind_of_some f hv] at he
      rcases List.mem_append.mp he with he | he
      · exact hx d e he
      · exact hf a _ e he

end Emits

/-- A program that never touches a path leaves its content as it was. -/
theorem Emits.frame {x : FileProg π μ α} {p : π} (h : Emits (fun e => p ∉ e.touched) x)
    (d : Disk π) : FileEvent.replay d (x d).events p = d p :=
  FileEvent.replay_frame d _ p (h d)

end FileProg

end Acu.Core
