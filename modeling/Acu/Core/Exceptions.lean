import Mathlib.Tactic.Common

/-! # Calls that may throw

The end of a call is a value, an exception or undefined behaviour. Sequences of calls
stop at the first one that does not return; a catch clause takes the exceptions of its
type and lets the others pass.
-/

namespace Acu.Core

inductive Exec (ε α : Type) where
  | returned (a : α)
  | threw (e : ε)
  | undefined
  deriving DecidableEq, Repr

namespace Exec

variable {ε α β : Type}

def bind (x : Exec ε α) (f : α → Exec ε β) : Exec ε β :=
  match x with
  | returned a => f a
  | threw e => threw e
  | undefined => undefined

instance : Monad (Exec ε) where
  pure := returned
  bind := bind

/-- `catch` of the exceptions that `p` holds for. -/
def catchIf (x : Exec ε α) (p : ε → Bool) (handler : Exec ε α) : Exec ε α :=
  match x with
  | threw e => if p e then handler else threw e
  | x => x

/-- A call that throws what an outcome says. -/
def ofOutcome {ε' : Type} (lift : ε' → ε) : Except ε' α → Exec ε α
  | .ok a => returned a
  | .error e => threw (lift e)

/-- A value that may be undefined. -/
def ofOption : Option α → Exec ε α
  | some a => returned a
  | none => undefined

def Returns (x : Exec ε α) : Prop := ∃ a, x = returned a

@[simp] theorem pure_eq (a : α) : (pure a : Exec ε α) = returned a := rfl

@[simp] theorem returned_bind (a : α) (f : α → Exec ε β) : (returned a >>= f) = f a := rfl

theorem returns_returned (a : α) : (returned a : Exec ε α).Returns := ⟨a, rfl⟩

theorem not_returns_undefined : ¬ (undefined : Exec ε α).Returns := by
  intro h
  rcases h with ⟨a, ha⟩
  cases ha

theorem not_returns_threw (e : ε) : ¬ (threw e : Exec ε α).Returns := by
  intro h
  rcases h with ⟨a, ha⟩
  cases ha

/-- A sequence returns when its first call does and the rest does on its value. -/
theorem bind_eq_returned {x : Exec ε α} {f : α → Exec ε β} {b : β} :
    (x >>= f) = returned b ↔ ∃ a, x = returned a ∧ f a = returned b := by
  cases x with
  | returned a =>
      constructor
      · intro h
        exact ⟨a, rfl, h⟩
      · intro h
        rcases h with ⟨a', ha, h⟩
        cases ha
        exact h
  | threw e =>
      constructor
      · intro h
        cases h
      · intro h
        rcases h with ⟨a, ha, -⟩
        cases ha
  | undefined =>
      constructor
      · intro h
        cases h
      · intro h
        rcases h with ⟨a, ha, -⟩
        cases ha

theorem bind_returns_iff {x : Exec ε α} {f : α → Exec ε β} :
    (x >>= f).Returns ↔ ∃ a, x = returned a ∧ (f a).Returns := by
  constructor
  · intro h
    rcases h with ⟨b, hb⟩
    obtain ⟨a, ha, hb⟩ := bind_eq_returned.mp hb
    exact ⟨a, ha, b, hb⟩
  · intro h
    rcases h with ⟨a, ha, b, hb⟩
    exact ⟨b, bind_eq_returned.mpr ⟨a, ha, hb⟩⟩

theorem ofOption_returns_iff {x : Option α} :
    (ofOption x : Exec ε α).Returns ↔ ∃ a, x = some a := by
  cases x with
  | none =>
      refine iff_of_false not_returns_undefined ?_
      intro h
      rcases h with ⟨a, ha⟩
      cases ha
  | some a => exact iff_of_true (returns_returned a) ⟨a, rfl⟩

end Exec

end Acu.Core
