import Acu.Tools.TimerThread

/-!
# Timers that repeat

A thread of a repeating timer is to stay in its loop until `stop` is called. Beside
each timer stands the history of its stops: which threads had been created when one
was called.
-/

namespace Acu.Tools

open Acu.Core

/-- The thread has left the loop. -/
def RunPc.left : RunPc → Bool
  | .leaving _ | .unlocking _ | .ended _ => true
  | _ => false

/-- The calls of a timer that is always started with `repeat`, and the steps of its threads. -/
inductive RepeatLabel where
  | start (sec msec : Int)
  | startArray (arr_msec : List Int)
  | stop (signaled : Option Nat)
  | thread (l : ThreadLabel)

def RepeatLabel.label : RepeatLabel → TimerLabel
  | .start sec msec => .start sec msec true
  | .startArray arr_msec => .startArray arr_msec true
  | .stop signaled => .stop signaled
  | .thread l => .thread l

/-- A timer, and the threads a `stop` was called on. -/
structure WatchedTimer where
  state : Timer
  stopped : Nat → Bool

namespace WatchedTimer

/-- A `stop` is called on all threads there are. -/
def stoppedBy (w : WatchedTimer) : RepeatLabel → Nat → Bool
  | .stop _ => fun i => decide (i < w.state.threads) || w.stopped i
  | _ => w.stopped

def step (w : WatchedTimer) (l : RepeatLabel) : Option WatchedTimer :=
  (timer.step w.state l.label).map fun t => ⟨t, w.stoppedBy l⟩

end WatchedTimer

def watchedTimer : Machine WatchedTimer RepeatLabel where
  step := WatchedTimer.step

namespace WatchedTimer

/-- Before the first call. -/
def ofTimer (s : Timer) : WatchedTimer := ⟨s, fun _ => false⟩

/-- A thread has left its loop only after a stop. -/
def LeavesAfterStop (w : WatchedTimer) : Prop :=
  ∀ i, (w.state.pc i).left = true → w.stopped i = true

/-- No thread takes the mutex again from a wait that ended on its own, before a stop. -/
def WokenByStop (w : WatchedTimer) : RepeatLabel → Prop
  | .thread (.reacquire i) => w.state.pc i = .woken .zero → w.stopped i = true
  | _ => True

/-! ## What a step does to the loop -/

section Steps

variable {s t : Timer}

theorem inLoop_at (s : Timer) (i : Nat) {pc : RunPc} (h : pc.left = false) :
    ¬ ((s.at_ i pc).pc i).left = true := by
  simp [Timer.at_, h]

/-- A thread comes out of its loop by a wait that ended with 0, or when nothing is to be
repeated. -/
theorem thread_leaves {l : ThreadLabel} (h : s.threadStep l = some t) {i : Nat}
    (hi : (t.pc i).left = true) :
    (s.pc i).left = true ∨ (l = .reacquire i ∧ s.pc i = .woken .zero) ∨
      (s.pc i ≠ .absent ∧ s.m_repeat = false) := by
  obtain ⟨pc, hthere, hpc, -, -, -⟩ := Timer.thread_cases h
  by_cases heq : i = l.index
  · cases l with
    | lock j =>
        obtain ⟨-, -, rfl⟩ := Timer.lock_cases h
        exact absurd hi (heq ▸ inLoop_at s j rfl)
    | wait j now =>
        obtain ⟨-, ⟨-, rfl⟩ | ⟨-, rfl⟩⟩ := Timer.wait_cases h
        · exact absurd hi (heq ▸ inLoop_at s j rfl)
        · exact absurd hi (heq ▸ inLoop_at s j rfl)
    | timeout j =>
        obtain ⟨-, rfl⟩ := Timer.timeout_cases h
        exact absurd hi (heq ▸ inLoop_at s j rfl)
    | wakeup j =>
        obtain ⟨-, rfl⟩ := Timer.wakeup_cases h
        exact absurd hi (heq ▸ inLoop_at s j rfl)
    | reacquire j =>
        obtain ⟨-, ⟨hw, -⟩ | ⟨-, rfl⟩⟩ := Timer.reacquire_cases h
        · exact .inr (.inl ⟨by rw [heq]; rfl, by rw [heq]; exact hw⟩)
        · exact absurd hi (heq ▸ inLoop_at s j rfl)
    | ret j =>
        obtain ⟨-, rfl⟩ := Timer.ret_cases h
        exact absurd hi (heq ▸ inLoop_at s j rfl)
    | test j =>
        -- the condition of both loops holds while `m_repeat` is set
        refine .inr (.inr ⟨heq ▸ hthere, ?_⟩)
        cases hrep : s.m_repeat with
        | false => rfl
        | true =>
            have htest : s.test.1 = true := by
              unfold Timer.test
              split
              · simp [hrep]
              · exact hrep
            obtain ⟨ret, -, rfl⟩ := Timer.test_eq h
            rw [htest, if_pos rfl] at hi
            exact absurd hi (heq ▸ inLoop_at s j rfl)
    | clear j =>
        obtain ⟨ret, hleaving, -⟩ := Timer.clear_cases h
        refine .inl ?_
        rw [heq, ThreadLabel.index, hleaving]
        rfl
    | unlock j =>
        obtain ⟨ret, hunlocking, -⟩ := Timer.unlock_cases h
        refine .inl ?_
        rw [heq, ThreadLabel.index, hunlocking]
        rfl
  · rw [hpc, Function.update_of_ne heq] at hi
    exact .inl hi

end Steps

/-! ## Every run -/

/-- With nothing to repeat every thread was stopped, and so was every thread behind its loop. -/
structure StopsFirst (w : WatchedTimer) : Prop where
  born : w.state.Born
  unrepeated : w.state.m_repeat = false → ∀ i < w.state.threads, w.stopped i = true
  left : w.LeavesAfterStop

theorem stopsFirst_thread {w : WatchedTimer} {l : ThreadLabel} {t : Timer} (h : StopsFirst w)
    (hg : w.WokenByStop (.thread l)) (hs : w.state.threadStep l = some t) :
    StopsFirst ⟨t, w.stopped⟩ := by
  obtain ⟨pc, hthere, hpc, hthreads, -, -⟩ := Timer.thread_cases hs
  refine ⟨Timer.born_move h.born hthere hpc hthreads, ?_, ?_⟩
  · intro hrep i hi
    exact h.unrepeated (((Timer.thread_keeps hs).2.1).symm.trans hrep) i (hthreads ▸ hi)
  · intro i hi
    rcases thread_leaves hs hi with hleft | ⟨rfl, hw⟩ | ⟨hi', hrep⟩
    · exact h.left i hleft
    · exact hg hw
    · exact h.unrepeated hrep i (h.born i hi')

theorem stopsFirst_create {w : WatchedTimer} {t : Timer} (h : StopsFirst w)
    (hpc : t.pc = Function.update w.state.pc w.state.threads .created)
    (hthreads : t.threads = w.state.threads + 1) (hrep : t.m_repeat = true) :
    StopsFirst ⟨t, w.stopped⟩ := by
  refine ⟨Timer.born_create h.born hpc hthreads, ?_, ?_⟩
  · intro hno
    rw [hrep] at hno
    cases hno
  · intro i hi
    refine h.left i ?_
    change (t.pc i).left = true at hi
    by_cases heq : i = w.state.threads
    · rw [hpc, heq, Function.update_self] at hi
      cases hi
    · rwa [hpc, Function.update_of_ne heq] at hi

theorem stopsFirst_stop {w : WatchedTimer} {signaled : Option Nat} {t : Timer} (h : StopsFirst w)
    (hs : w.state.stop signaled = some t) :
    StopsFirst ⟨t, w.stoppedBy (.stop signaled)⟩ := by
  have hborn := Timer.born_stop h.born hs
  obtain ⟨-, -, rfl⟩ := Timer.stop_cases hs
  refine ⟨hborn, ?_, ?_⟩
  · intro _ i hi
    have hlt : i < w.state.threads := by
      cases signaled <;> exact hi
    simp [stoppedBy, hlt]
  · intro i hi
    have hthere : w.state.pc i ≠ .absent := by
      intro habsent
      cases signaled with
      | none =>
          change (w.state.pc i).left = true at hi
          rw [habsent] at hi
          cases hi
      | some j =>
          change (Function.update w.state.pc j _ i).left = true at hi
          by_cases heq : i = j
          · rw [heq, Function.update_self] at hi
            cases hi
          · rw [Function.update_of_ne heq, habsent] at hi
            cases hi
    simp [stoppedBy, h.born i hthere]

theorem step_eq_some {w w' : WatchedTimer} {l : RepeatLabel}
    (h : watchedTimer.step w l = some w') :
    ∃ t, timer.step w.state l.label = some t ∧ w' = ⟨t, w.stoppedBy l⟩ := by
  obtain ⟨t, ht, rfl⟩ := Option.map_eq_some_iff.mp h
  exact ⟨t, ht, rfl⟩

theorem stopsFirst_step (w : WatchedTimer) (l : RepeatLabel) (w' : WatchedTimer)
    (h : StopsFirst w) (hg : w.WokenByStop l) (hs : watchedTimer.step w l = some w') :
    StopsFirst w' := by
  obtain ⟨t, ht, rfl⟩ := step_eq_some hs
  cases l with
  | start sec msec =>
      simp only [timer, RepeatLabel.label, Timer.step] at ht
      split at ht
      · cases ht
      · cases ht
        exact stopsFirst_create h rfl rfl rfl
  | startArray arr_msec =>
      simp only [timer, RepeatLabel.label, Timer.step] at ht
      split at ht
      · cases ht
        exact stopsFirst_create h rfl rfl rfl
      · cases ht
  | stop signaled => exact stopsFirst_stop h ht
  | thread l => exact stopsFirst_thread h hg ht

theorem broken_of_woken (w : WatchedTimer) (l : RepeatLabel) (w' : WatchedTimer)
    (hg : ¬ w.WokenByStop l) (hs : watchedTimer.step w l = some w') : ¬ w'.LeavesAfterStop := by
  obtain ⟨t, ht, rfl⟩ := step_eq_some hs
  cases l with
  | start | startArray | stop => exact absurd trivial hg
  | thread l =>
      cases l with
      | reacquire i =>
          obtain ⟨hw, hnot⟩ := Classical.not_imp.mp hg
          obtain ⟨-, ⟨-, rfl⟩ | ⟨htime, -⟩⟩ := Timer.reacquire_cases ht
          · intro h
            refine hnot (h i ?_)
            simp [Timer.at_, RunPc.left]
          · rw [hw] at htime
            cases htime
      | lock | wait | timeout | wakeup | ret | test | clear | unlock => exact absurd trivial hg

theorem stopsFirst_new (array : Bool) (m_sec m_msec : Int) (m_repeat : Bool)
    (m_arr_msec : Nat → Int) (m_arr_index : Nat) :
    StopsFirst (ofTimer (Timer.new array m_sec m_msec m_repeat m_arr_msec m_arr_index)) where
  born := Timer.born_new array m_sec m_msec m_repeat m_arr_msec m_arr_index
  unrepeated _ i hi := absurd hi (Nat.not_lt_zero i)
  left _ hi := nomatch hi

/-- In a run of a repeating timer of either kind its threads leave their loops only after a stop
precisely when no wait that ended on its own is returned from before a stop. -/
theorem leavesAfterStop_iff (array : Bool) (m_sec m_msec : Int) (m_repeat : Bool)
    (m_arr_msec : Nat → Int) (m_arr_index : Nat) (labels : List RepeatLabel) :
    watchedTimer.AllStates LeavesAfterStop
        (ofTimer (Timer.new array m_sec m_msec m_repeat m_arr_msec m_arr_index)) labels ↔
      watchedTimer.AllSteps WokenByStop
        (ofTimer (Timer.new array m_sec m_msec m_repeat m_arr_msec m_arr_index)) labels :=
  Machine.allStates_iff_allSteps (fun _ h => h.left) stopsFirst_step
    (fun w l w' _ hg hs => broken_of_woken w l w' hg hs)
    (stopsFirst_new array m_sec m_msec m_repeat m_arr_msec m_arr_index) labels

/-- The timer of the delegator, one second and repeating, ends by a wake-up without a signal. -/
theorem timer_dies_unstopped :
    ¬ watchedTimer.AllStates LeavesAfterStop (ofTimer Timer.fresh)
      [.start 1 0, .thread (.lock 0), .thread (.wait 0 0), .thread (.wakeup 0),
        .thread (.reacquire 0)] := by
  intro h
  have hstopped := h.last rfl 0 rfl
  cases hstopped

end WatchedTimer

end Acu.Tools
