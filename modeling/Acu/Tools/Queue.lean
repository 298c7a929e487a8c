import Acu.Core.Machine

/-!
# The queue between threads

`Queue` with any number of producers, calls of `exit` and one consumer. Every access is
made under `mtx`, so a step is one critical section: of a `push`, of an `exit`, or of the
consumer up to its return from `pop` or its next wait. A waiting consumer may also wake
up on its own.
-/

namespace Acu.Tools

open Acu.Core

universe u

/-- Where the consumer stands: not in a wait, blocked in `pthread_cond_wait`, or woken there
and without the mutex again. -/
inductive PopPc where
  | outside
  | waiting
  | woken
  deriving DecidableEq, Repr

/-- A null pointer in the buffer is `none`. What `pop` returned and what `push` deleted are
history. -/
structure Queue (E : Type u) where
  buf : List (Option E)
  m_bWait : Bool
  m_available : Bool
  pc : PopPc
  popped : List (Option E)
  deleted : List E

/-- The critical sections, and the wake-up without a signal. -/
inductive QueueLabel (E : Type u) where
  | push (producer : Nat) (e : E)
  | exit
  | pop
  | wakeup

variable {E : Type u}

namespace Queue

def new : Queue E := ⟨[], false, true, .outside, [], []⟩

/-- `Condition::notify_one`. A signal without a waiting thread is lost. -/
def notify_one (q : Queue E) : Queue E :=
  if q.m_bWait then
    { q with m_bWait := false, pc := if q.pc = .waiting then .woken else q.pc }
  else q

def push (e : E) (q : Queue E) : Queue E :=
  if q.m_available then { q with buf := q.buf ++ [some e] }.notify_one
  else { q with deleted := q.deleted ++ [e] }

def exit (q : Queue E) : Queue E :=
  { q with m_available := false, buf := q.buf ++ [none] }.notify_one

/-- The loop of `pop` with the mutex held: `Condition::wait`, or the end of the call. -/
def pop (q : Queue E) : Queue E :=
  match q.buf with
  | [] => { q with m_bWait := true, pc := .waiting }
  | m :: buf => { q with buf := buf, pc := .outside, popped := q.popped ++ [m] }

def step (q : Queue E) : QueueLabel E → Option (Queue E)
  | .push _ e => some (q.push e)
  | .exit => some q.exit
  | .pop => if q.pc = .waiting then none else some q.pop
  | .wakeup => if q.pc = .waiting then some { q with pc := .woken } else none

def machine : Machine (Queue E) (QueueLabel E) := ⟨step⟩

end Queue

/-! ## What a run asks for -/

namespace QueueLabel

/-- The elements pushed before the first call of `exit`, in the order of their pushes. -/
def beforeExit : List (QueueLabel E) → List E
  | [] => []
  | .push _ e :: as => e :: beforeExit as
  | .exit :: _ => []
  | _ :: as => beforeExit as

/-- The elements of all pushes. -/
def pushed : List (QueueLabel E) → List E
  | [] => []
  | .push _ e :: as => e :: pushed as
  | _ :: as => pushed as

/-- The elements pushed after the first call of `exit`. -/
def afterExit : List (QueueLabel E) → List E
  | [] => []
  | .exit :: as => pushed as
  | _ :: as => afterExit as

def exits : List (QueueLabel E) → Nat
  | [] => 0
  | .exit :: as => exits as + 1
  | _ :: as => exits as

/-- How often the consumer gets the mutex. -/
def pops : List (QueueLabel E) → Nat
  | [] => 0
  | .pop :: as => pops as + 1
  | _ :: as => pops as

end QueueLabel

open QueueLabel

/-- What holds after a run: the consumer was given the elements pushed before `exit` in their
order and then the nulls, up to those still in the buffer; the elements pushed after `exit`
are deleted; the consumer is not blocked while the buffer holds something; and whatever
happens next, once it got the mutex as often as the buffer has entries it was given them. -/
structure Delivers (as : List (QueueLabel E)) (q : Queue E) : Prop where
  delivered : q.popped ++ q.buf = (beforeExit as).map some ++ List.replicate (exits as) none
  deleted : q.deleted = afterExit as
  notBlocked : q.pc = .waiting → q.buf = []
  progress : ∀ bs r, Queue.machine.run q bs = some r → q.buf.length ≤ pops bs →
    q.popped ++ q.buf <+: r.popped

/-! ## One step -/

namespace Queue

@[simp] theorem notify_one_buf (q : Queue E) : q.notify_one.buf = q.buf := by
  unfold notify_one
  split <;> rfl

@[simp] theorem notify_one_popped (q : Queue E) : q.notify_one.popped = q.popped := by
  unfold notify_one
  split <;> rfl

@[simp] theorem notify_one_deleted (q : Queue E) : q.notify_one.deleted = q.deleted := by
  unfold notify_one
  split <;> rfl

@[simp] theorem notify_one_available (q : Queue E) :
    q.notify_one.m_available = q.m_available := by
  unfold notify_one
  split <;> rfl

/-- The flag is set and nothing is in the buffer while the consumer waits. -/
def WaitsForSignal (q : Queue E) : Prop := q.pc = .waiting → q.m_bWait = true ∧ q.buf = []

/-- A notified consumer does not wait on. -/
theorem notify_one_pc {q : Queue E} (h : q.pc = .waiting → q.m_bWait = true) :
    q.notify_one.pc ≠ .waiting := by
  unfold notify_one
  split
  next =>
    show (if q.pc = .waiting then PopPc.woken else q.pc) ≠ .waiting
    split
    · decide
    · assumption
  next hflag =>
    intro hpc
    exact hflag (h hpc)

/-- The entries a step appends: `some` for a push that is let in, `none` for `exit`. -/
def appended (q : Queue E) : QueueLabel E → List (Option E)
  | .push _ e => if q.m_available then [some e] else []
  | .exit => [none]
  | .pop => []
  | .wakeup => []

/-- The elements a step deletes. -/
def dropped (q : Queue E) : QueueLabel E → List E
  | .push _ e => if q.m_available then [] else [e]
  | .exit => []
  | .pop => []
  | .wakeup => []

/-- What a step does to the entries, to the deleted elements and to `m_available`, and that the
consumer takes an entry when it gets the mutex and there is one. -/
theorem step_spec {q r : Queue E} {a : QueueLabel E} (h : q.step a = some r) :
    r.popped ++ r.buf = q.popped ++ q.buf ++ q.appended a ∧
      r.deleted = q.deleted ++ q.dropped a ∧
      q.popped.length ≤ r.popped.length ∧
      r.m_available = (q.m_available && exits [a] == 0) ∧
      (q.buf ≠ [] → q.popped.length + pops [a] ≤ r.popped.length) := by
  cases a with
  | push producer e =>
      cases h
      unfold push
      split
      next hav => simp [appended, dropped, exits, pops, hav]
      next hav => simp [appended, dropped, exits, pops, hav]
  | exit =>
      cases h
      simp [exit, appended, dropped, exits, pops]
  | pop =>
      simp only [step] at h
      split at h
      · cases h
      · cases h
        unfold pop
        split
        next hbuf => simp [appended, dropped, exits, hbuf]
        next m buf hbuf => simp [appended, dropped, exits, pops, hbuf]
  | wakeup =>
      simp only [step] at h
      split at h
      · cases h
        simp [appended, dropped, exits, pops]
      · cases h

theorem new_waitsForSignal : (new : Queue E).WaitsForSignal := by
  intro hpc
  cases hpc

theorem waitsForSignal_step {q r : Queue E} {a : QueueLabel E} (hq : q.WaitsForSignal)
    (h : q.step a = some r) : r.WaitsForSignal := by
  have hflag : q.pc = .waiting → q.m_bWait = true := fun hpc => (hq hpc).1
  cases a with
  | push producer e =>
      cases h
      unfold push
      split
      · intro hpc
        exact absurd hpc (notify_one_pc hflag)
      · exact hq
  | exit =>
      cases h
      intro hpc
      exact absurd hpc (notify_one_pc hflag)
  | pop =>
      simp only [step] at h
      split at h
      · cases h
      · cases h
        unfold pop
        split
        next hbuf => exact fun _ => ⟨rfl, hbuf⟩
        next =>
          intro hpc
          cases hpc
  | wakeup =>
      simp only [step] at h
      split at h
      · cases h
        intro hpc
        cases hpc
      · cases h

/-! ## Runs -/

/-- An open queue gets the elements up to the first `exit`, a closed one only nulls. -/
theorem run_delivered {as : List (QueueLabel E)} {q r : Queue E} (h : machine.run q as = some r) :
    r.popped ++ r.buf = q.popped ++ q.buf ++
        ((if q.m_available then (beforeExit as).map some else []) ++
          List.replicate (exits as) none) ∧
      r.deleted = q.deleted ++ if q.m_available then afterExit as else pushed as := by
  induction as generalizing q with
  | nil =>
      cases h
      simp [beforeExit, afterExit, pushed, exits]
  | cons a as ih =>
      obtain ⟨s, hs, hr⟩ := machine.run_cons_eq_some h
      obtain ⟨hentries, hdeleted, -, havail, -⟩ := step_spec hs
      obtain ⟨ihentries, ihdeleted⟩ := ih hr
      rw [hentries] at ihentries
      rw [hdeleted] at ihdeleted
      rw [ihentries, ihdeleted]
      cases a with
      | push producer e =>
          have hsame : s.m_available = q.m_available := by
            simpa [exits] using havail
          rw [hsame]
          cases hav : q.m_available <;>
            simp [appended, dropped, beforeExit, afterExit, pushed, exits, hav]
      | exit =>
          have hclosed : s.m_available = false := by
            simpa [exits] using havail
          rw [hclosed]
          cases hav : q.m_available <;>
            simp [appended, dropped, beforeExit, afterExit, pushed, exits, List.replicate_succ]
      | pop =>
          have hsame : s.m_available = q.m_available := by
            simpa [exits] using havail
          rw [hsame]
          simp [appended, dropped, beforeExit, afterExit, pushed, exits]
      | wakeup =>
          have hsame : s.m_available = q.m_available := by
            simpa [exits] using havail
          rw [hsame]
          simp [appended, dropped, beforeExit, afterExit, pushed, exits]

/-- Entries that are there are given to the consumer once it got the mutex often enough. -/
theorem run_progress {bs : List (QueueLabel E)} {q r : Queue E} {l : List (Option E)}
    (h : machine.run q bs = some r) (hl : l <+: q.popped ++ q.buf)
    (hlen : l.length ≤ q.popped.length + pops bs) : l <+: r.popped := by
  induction bs generalizing q with
  | nil =>
      cases h
      exact List.prefix_of_prefix_length_le hl (List.prefix_append _ _) hlen
  | cons a as ih =>
      obtain ⟨s, hs, hr⟩ := machine.run_cons_eq_some h
      obtain ⟨hentries, -, hmono, -, htaken⟩ := step_spec hs
      have hls : l <+: s.popped ++ s.buf := by
        rw [hentries]
        exact hl.trans (List.prefix_append _ _)
      apply ih hr hls
      have hcons : pops (a :: as) = pops [a] + pops as := by
        cases a <;> simp [pops, Nat.add_comm]
      by_cases hbuf : q.buf = []
      · have hle : l.length ≤ q.popped.length := by
          have hle := hl.length_le
          rwa [hbuf, List.append_nil] at hle
        omega
      · have htake := htaken hbuf
        omega

theorem run_waitsForSignal {as : List (QueueLabel E)} {q r : Queue E} (hq : q.WaitsForSignal)
    (h : machine.run q as = some r) : r.WaitsForSignal :=
  (Machine.allStates_of_preserved (P := WaitsForSignal) (fun _ hs => hs)
    (fun _ _ _ hs ht => waitsForSignal_step hs ht) hq as).last h

end Queue

/-- In every interleaving. -/
theorem queue_delivers (as : List (QueueLabel E)) (q : Queue E)
    (h : Queue.machine.run Queue.new as = some q) : Delivers as q := by
  obtain ⟨hentries, hdeleted⟩ := Queue.run_delivered h
  have hwaits : q.WaitsForSignal := Queue.run_waitsForSignal Queue.new_waitsForSignal h
  constructor
  · simpa [Queue.new] using hentries
  · simpa [Queue.new] using hdeleted
  · exact fun hpc => (hwaits hpc).2
  · intro bs r hr hpops
    apply Queue.run_progress hr List.prefix_rfl
    rw [List.length_append]
    omega

/-- The consumer waits, wakes up on its own and waits again before the first of two pushes; a
third push comes after `exit`. -/
def queueRun : List (QueueLabel Nat) :=
  [.pop, .wakeup, .pop, .push 0 10, .push 1 20, .exit, .pop, .push 0 30, .pop, .pop, .pop]

theorem queue_delivers_run :
    Delivers queueRun ⟨[], true, false, .waiting, [some 10, some 20, none], [30]⟩ :=
  queue_delivers queueRun _ rfl

end Acu.Tools
