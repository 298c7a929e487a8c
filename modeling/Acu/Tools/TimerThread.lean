import Mathlib.Logic.Function.Basic
import Acu.Core.Machine
import Acu.Tools.Timer

/-!
# Timer threads

A `Timer` with all the threads its calls of `start` have created, in the steps
between which another thread can run. The calls are made one after the other;
`start` takes no mutex, and `stop` is one step once the mutex is free. A wait may
end at any time after it began, by its time, by a notification or on its own.
-/

namespace Acu.Tools

open Acu.Core

/-- The results of `timedwait` that `run` tells apart. -/
inductive WaitRet where
  | zero
  | ETIMEDOUT
  | EINVAL
  deriving DecidableEq, Repr

/-- Where a thread stands in `run` or `run_array`: before its mutex, at the wait, woken and
without the mutex again, in the callback, at the condition of the loop, and behind the loop,
before `m_active = false` and before the mutex is left. -/
inductive RunPc where
  | absent
  | created
  | locked
  | waiting
  | woken (ret : WaitRet)
  | calling
  | testing (ret : WaitRet)
  | leaving (ret : WaitRet)
  | unlocking (ret : WaitRet)
  | ended (ret : WaitRet)
  deriving DecidableEq, Repr

inductive TimerCall where
  | start
  | stop
  deriving DecidableEq, Repr

/-- `array` tells which of the two callbacks the object was made with. Threads go by the
number of their creation. The latest call is history. -/
structure Timer where
  array : Bool
  m_sec : Int
  m_msec : Int
  m_repeat : Bool
  m_active : Bool
  m_bWait : Bool
  m_arr_msec : Nat → Int
  m_arr_index : Nat
  mtx : Option Nat
  pc : Nat → RunPc
  threads : Nat
  latestCall : Option TimerCall

/-- The steps of the threads. -/
inductive ThreadLabel where
  | lock (i : Nat)
  | wait (i : Nat) (now : Int)
  | timeout (i : Nat)
  | wakeup (i : Nat)
  | reacquire (i : Nat)
  | ret (i : Nat)
  | test (i : Nat)
  | clear (i : Nat)
  | unlock (i : Nat)

def ThreadLabel.index : ThreadLabel → Nat
  | .lock i | .wait i _ | .timeout i | .wakeup i | .reacquire i | .ret i | .test i | .clear i
  | .unlock i => i

/-- The return from the callback. -/
def ThreadLabel.isRet : ThreadLabel → Bool
  | .ret _ => true
  | _ => false

/-- A stop tells which waiting thread its signal goes to. -/
inductive TimerLabel where
  | start (sec msec : Int) (rep : Bool)
  | startArray (arr_msec : List Int) (rep : Bool)
  | stop (signaled : Option Nat)
  | thread (l : ThreadLabel)

namespace Timer

/-- `Timer(cbFunc, clientData)`; the members without a value hold what was in the memory. -/
def new (array : Bool) (m_sec m_msec : Int) (m_repeat : Bool) (m_arr_msec : Nat → Int)
    (m_arr_index : Nat) : Timer where
  array := array
  m_sec := m_sec
  m_msec := m_msec
  m_repeat := m_repeat
  m_active := false
  m_bWait := false
  m_arr_msec := m_arr_msec
  m_arr_index := m_arr_index
  mtx := none
  pc := fun _ => .absent
  threads := 0
  latestCall := none

def at_ (s : Timer) (i : Nat) (pc : RunPc) : Timer := { s with pc := Function.update s.pc i pc }

/-- `pthread_create`. -/
def create (s : Timer) : Timer := { s.at_ s.threads .created with threads := s.threads + 1 }

def start (s : Timer) (sec msec : Int) (rep : Bool) : Timer :=
  { s with
    m_active := true
    m_sec := sec
    m_msec := msec
    m_repeat := rep
    latestCall := some .start }.create

/-- The array is copied up to its zero. -/
def startArray (s : Timer) (arr_msec : List Int) (rep : Bool) : Timer :=
  let arr := arr_msec.takeWhile (· ≠ 0)
  { s with
    m_active := true
    m_arr_msec := fun j =>
      if j < arr.length then arr.getD j 0 else if j = arr.length then 0 else s.m_arr_msec j
    m_arr_index := 0
    m_repeat := rep
    latestCall := some .start }.create

/-- A signal is sent when `m_bWait` is set, and received when a thread waits. -/
def Signals (s : Timer) : Option Nat → Prop
  | some i => s.m_bWait = true ∧ s.pc i = .waiting
  | none => ¬ (s.m_bWait = true ∧ ∃ i < s.threads, s.pc i = .waiting)

instance (s : Timer) (signaled : Option Nat) : Decidable (s.Signals signaled) :=
  match signaled with
  | some _ => inferInstanceAs (Decidable (_ ∧ _))
  | none => inferInstanceAs (Decidable (¬ _))

/-- `stop` from the lock to the unlock. -/
def stop (s : Timer) (signaled : Option Nat) : Option Timer :=
  if s.mtx = none ∧ s.Signals signaled then
    let s := match signaled with
      | some i => s.at_ i (.woken .zero)
      | none => s
    some { s with
      m_active := false
      m_repeat := false
      m_bWait := false
      latestCall := some .stop }
  else none

/-- The time the next wait is given. -/
def waitTime (s : Timer) (now : Int) : Timespec :=
  if s.array then deadlineMillis now (s.m_arr_msec s.m_arr_index) else deadline now s.m_sec s.m_msec

/-- The index before the condition of the loop in `run_array`. -/
def nextIndex (s : Timer) : Nat :=
  if s.m_arr_msec (s.m_arr_index + 1) = 0 ∧ s.m_repeat = true then 0 else s.m_arr_index + 1

/-- The condition of the loop, with the index it leaves. -/
def test (s : Timer) : Bool × Nat :=
  if s.array then (decide (s.m_arr_msec s.nextIndex ≠ 0) || s.m_repeat, s.nextIndex)
  else (s.m_repeat, s.m_arr_index)

/-- One step of one thread. A wait for a time that is not valid returns at once, with the
mutex still held. -/
def threadStep (s : Timer) : ThreadLabel → Option Timer
  | .lock i =>
      match s.pc i, s.mtx with
      | .created, none => some { s.at_ i .locked with mtx := some i }
      | _, _ => none
  | .wait i now =>
      match s.pc i with
      | .locked =>
          if (s.waitTime now).Valid then
            some { s.at_ i .waiting with mtx := none, m_bWait := true }
          else some { s.at_ i (.testing .EINVAL) with m_bWait := true }
      | _ => none
  | .timeout i =>
      match s.pc i with
      | .waiting => some (s.at_ i (.woken .ETIMEDOUT))
      | _ => none
  | .wakeup i =>
      match s.pc i with
      | .waiting => some (s.at_ i (.woken .zero))
      | _ => none
  | .reacquire i =>
      match s.pc i, s.mtx with
      | .woken .zero, none => some { s.at_ i (.leaving .zero) with mtx := some i }
      | .woken .ETIMEDOUT, none => some { s.at_ i .calling with mtx := some i }
      | _, _ => none
  | .ret i =>
      match s.pc i with
      | .calling => some (s.at_ i (.testing .ETIMEDOUT))
      | _ => none
  | .test i =>
      match s.pc i with
      | .testing ret =>
          some { s.at_ i (if s.test.1 then .locked else .leaving ret) with
            m_arr_index := s.test.2 }
      | _ => none
  | .clear i =>
      match s.pc i with
      | .leaving ret => some { s.at_ i (.unlocking ret) with m_active := false }
      | _ => none
  | .unlock i =>
      match s.pc i with
      | .unlocking ret => some { s.at_ i (.ended ret) with mtx := none }
      | _ => none

def step (s : Timer) : TimerLabel → Option Timer
  | .start sec msec rep => if s.array then none else some (s.start sec msec rep)
  | .startArray arr_msec rep => if s.array then some (s.startArray arr_msec rep) else none
  | .stop signaled => s.stop signaled
  | .thread l => s.threadStep l

end Timer

def timer : Machine Timer TimerLabel where
  step := Timer.step

namespace RunPc

/-- The thread holds the mutex. -/
def holds : RunPc → Bool
  | .locked | .calling | .testing _ | .leaving _ | .unlocking _ => true
  | _ => false

/-- The thread writes no member any more. -/
def past : RunPc → Bool
  | .absent | .unlocking _ | .ended _ => true
  | _ => false

/-- The last expiry is over: the loop is left after the callback, and so marked. -/
def expired : RunPc → Bool
  | .unlocking .ETIMEDOUT | .ended .ETIMEDOUT => true
  | _ => false

/-- The thread will not call back, whatever happens. -/
def quiet : RunPc → Bool
  | .absent | .woken .zero | .leaving .zero | .unlocking _ | .ended _ => true
  | _ => false

/-- The thread waits for its time, or was woken by it. -/
def onTime : RunPc → Bool
  | .created | .locked | .waiting | .woken .ETIMEDOUT | .calling | .testing .ETIMEDOUT
  | .leaving .ETIMEDOUT | .unlocking .ETIMEDOUT | .ended .ETIMEDOUT => true
  | _ => false

theorem quiet_of_past {pc : RunPc} (h : pc.past = true) : pc.quiet = true := by
  cases pc with
  | absent | unlocking | ended => rfl
  | _ => cases h

end RunPc

/-! ## What the calls promise -/

namespace Timer

/-- The latest call was a `start`, and the thread it created is not through with its last
expiry. -/
def Pending (s : Timer) : Prop :=
  s.latestCall = some .start ∧ ∀ i, i + 1 = s.threads → (s.pc i).expired = false

/-- After a `stop` nothing calls back, and `IsActive` is true while a start is pending. -/
structure AsCalled (s : Timer) : Prop where
  silent : s.latestCall = some .stop → ∀ i, s.pc i ≠ .calling
  active : s.m_active = true ↔ s.Pending

/-- A start finds no thread that still writes a member; a stop finds none that has not begun to
wait or whose time has come; no wait ends on its own, or is given a time that is not valid. -/
def InTime (s : Timer) : TimerLabel → Prop
  | .start _ _ _ | .startArray _ _ => ∀ i, (s.pc i).past = true
  | .stop _ => ∀ i, s.pc i ≠ .created ∧ s.pc i ≠ .woken .ETIMEDOUT
  | .thread (.wakeup _) => False
  | .thread (.wait _ now) => (s.waitTime now).Valid
  | .thread _ => True

@[simp] theorem pc_at_self (s : Timer) (i : Nat) (pc : RunPc) : (s.at_ i pc).pc i = pc := by
  simp [at_]

/-- After a move of one thread each other one is where it was. -/
theorem pc_at_cases {s : Timer} {i j : Nat} {pc q : RunPc} (h : (s.at_ i pc).pc j = q) :
    s.pc j = q ∨ (j = i ∧ pc = q) := by
  by_cases heq : j = i
  · subst heq
    exact .inr ⟨rfl, by simpa using h⟩
  · exact .inl (by simpa [at_, Function.update_of_ne heq] using h)

/-! ## What a step can do -/

section Cases

variable {s t : Timer} {i : Nat}

theorem lock_cases (h : s.threadStep (.lock i) = some t) :
    s.pc i = .created ∧ s.mtx = none ∧ t = { s.at_ i .locked with mtx := some i } := by
  simp only [threadStep] at h
  split at h
  next hpc hm => exact ⟨hpc, hm, (Option.some.inj h).symm⟩
  · cases h

theorem wait_cases {now : Int} (h : s.threadStep (.wait i now) = some t) :
    s.pc i = .locked ∧
      (((s.waitTime now).Valid ∧ t = { s.at_ i .waiting with mtx := none, m_bWait := true }) ∨
        (¬ (s.waitTime now).Valid ∧ t = { s.at_ i (.testing .EINVAL) with m_bWait := true })) := by
  simp only [threadStep] at h
  split at h
  next hpc =>
    split at h
    next hv => exact ⟨hpc, .inl ⟨hv, (Option.some.inj h).symm⟩⟩
    next hv => exact ⟨hpc, .inr ⟨hv, (Option.some.inj h).symm⟩⟩
  · cases h

theorem timeout_cases (h : s.threadStep (.timeout i) = some t) :
    s.pc i = .waiting ∧ t = s.at_ i (.woken .ETIMEDOUT) := by
  simp only [threadStep] at h
  split at h
  next hpc => exact ⟨hpc, (Option.some.inj h).symm⟩
  · cases h

theorem wakeup_cases (h : s.threadStep (.wakeup i) = some t) :
    s.pc i = .waiting ∧ t = s.at_ i (.woken .zero) := by
  simp only [threadStep] at h
  split at h
  next hpc => exact ⟨hpc, (Option.some.inj h).symm⟩
  · cases h

theorem reacquire_cases (h : s.threadStep (.reacquire i) = some t) :
    s.mtx = none ∧
      ((s.pc i = .woken .zero ∧ t = { s.at_ i (.leaving .zero) with mtx := some i }) ∨
        (s.pc i = .woken .ETIMEDOUT ∧ t = { s.at_ i .calling with mtx := some i })) := by
  simp only [threadStep] at h
  split at h
  next hpc hm => exact ⟨hm, .inl ⟨hpc, (Option.some.inj h).symm⟩⟩
  next hpc hm => exact ⟨hm, .inr ⟨hpc, (Option.some.inj h).symm⟩⟩
  · cases h

theorem ret_cases (h : s.threadStep (.ret i) = some t) :
    s.pc i = .calling ∧ t = s.at_ i (.testing .ETIMEDOUT) := by
  simp only [threadStep] at h
  split at h
  next hpc => exact ⟨hpc, (Option.some.inj h).symm⟩
  · cases h

/-- At its condition the loop goes on or is left. -/
theorem test_eq (h : s.threadStep (.test i) = some t) :
    ∃ ret, s.pc i = .testing ret ∧
      t = { s.at_ i (if s.test.1 then .locked else .leaving ret) with
        m_arr_index := s.test.2 } := by
  simp only [threadStep] at h
  split at h
  next ret hpc => exact ⟨ret, hpc, (Option.some.inj h).symm⟩
  · cases h

theorem test_cases (h : s.threadStep (.test i) = some t) :
    ∃ ret pc, s.pc i = .testing ret ∧ (pc = .locked ∨ pc = .leaving ret) ∧
      t = { s.at_ i pc with m_arr_index := s.test.2 } := by
  obtain ⟨ret, hpc, rfl⟩ := test_eq h
  refine ⟨ret, _, hpc, ?_, rfl⟩
  cases s.test.1 <;> simp

theorem clear_cases (h : s.threadStep (.clear i) = some t) :
    ∃ ret, s.pc i = .leaving ret ∧ t = { s.at_ i (.unlocking ret) with m_active := false } := by
  simp only [threadStep] at h
  split at h
  next ret hpc => exact ⟨ret, hpc, (Option.some.inj h).symm⟩
  · cases h

theorem unlock_cases (h : s.threadStep (.unlock i) = some t) :
    ∃ ret, s.pc i = .unlocking ret ∧ t = { s.at_ i (.ended ret) with mtx := none } := by
  simp only [threadStep] at h
  split at h
  next ret hpc => exact ⟨ret, hpc, (Option.some.inj h).symm⟩
  · cases h

theorem stop_cases {signaled : Option Nat} (h : s.stop signaled = some t) :
    s.mtx = none ∧ s.Signals signaled ∧
      t = { (match signaled with
          | some i => s.at_ i (.woken .zero)
          | none => s) with
        m_active := false
        m_repeat := false
        m_bWait := false
        latestCall := some .stop } := by
  unfold stop at h
  split at h
  next hg => exact ⟨hg.1, hg.2, (Option.some.inj h).symm⟩
  · cases h

/-- A step moves one thread that is there, to the callback only from a wait that timed out. -/
theorem thread_cases {l : ThreadLabel} (h : s.threadStep l = some t) :
    ∃ pc, s.pc l.index ≠ .absent ∧ t.pc = Function.update s.pc l.index pc ∧
      t.threads = s.threads ∧ t.array = s.array ∧
      (pc = .calling → l = .reacquire l.index ∧ s.pc l.index = .woken .ETIMEDOUT) := by
  cases l with
  | lock i =>
      obtain ⟨hpc, -, rfl⟩ := lock_cases h
      exact ⟨.locked, by simp [ThreadLabel.index, hpc], rfl, rfl, rfl, by simp⟩
  | wait i now =>
      obtain ⟨hpc, ⟨-, rfl⟩ | ⟨-, rfl⟩⟩ := wait_cases h
      · exact ⟨.waiting, by simp [ThreadLabel.index, hpc], rfl, rfl, rfl, by simp⟩
      · exact ⟨.testing .EINVAL, by simp [ThreadLabel.index, hpc], rfl, rfl, rfl, by simp⟩
  | timeout i =>
      obtain ⟨hpc, rfl⟩ := timeout_cases h
      exact ⟨.woken .ETIMEDOUT, by simp [ThreadLabel.index, hpc], rfl, rfl, rfl, by simp⟩
  | wakeup i =>
      obtain ⟨hpc, rfl⟩ := wakeup_cases h
      exact ⟨.woken .zero, by simp [ThreadLabel.index, hpc], rfl, rfl, rfl, by simp⟩
  | reacquire i =>
      obtain ⟨-, ⟨hpc, rfl⟩ | ⟨hpc, rfl⟩⟩ := reacquire_cases h
      · exact ⟨.leaving .zero, by simp [ThreadLabel.index, hpc], rfl, rfl, rfl, by simp⟩
      · exact ⟨.calling, by simp [ThreadLabel.index, hpc], rfl, rfl, rfl, fun _ => ⟨rfl, hpc⟩⟩
  | ret i =>
      obtain ⟨hpc, rfl⟩ := ret_cases h
      exact ⟨.testing .ETIMEDOUT, by simp [ThreadLabel.index, hpc], rfl, rfl, rfl, by simp⟩
  | test i =>
      obtain ⟨ret, pc, hpc, hnext, rfl⟩ := test_cases h
      refine ⟨pc, by simp [ThreadLabel.index, hpc], rfl, rfl, rfl, ?_⟩
      cases hnext with
      | inl hpc' => simp [hpc']
      | inr hpc' => simp [hpc']
  | clear i =>
      obtain ⟨ret, hpc, rfl⟩ := clear_cases h
      exact ⟨.unlocking ret, by simp [ThreadLabel.index, hpc], rfl, rfl, rfl, by simp⟩
  | unlock i =>
      obtain ⟨ret, hpc, rfl⟩ := unlock_cases h
      exact ⟨.ended ret, by simp [ThreadLabel.index, hpc], rfl, rfl, rfl, by simp⟩

/-- What a start sets, the threads leave as it is. -/
theorem thread_keeps {l : ThreadLabel} (h : s.threadStep l = some t) :
    t.m_msec = s.m_msec ∧ t.m_repeat = s.m_repeat ∧ t.m_arr_msec = s.m_arr_msec := by
  cases l with
  | lock j => obtain ⟨-, -, rfl⟩ := lock_cases h; exact ⟨rfl, rfl, rfl⟩
  | wait j now => obtain ⟨-, ⟨-, rfl⟩ | ⟨-, rfl⟩⟩ := wait_cases h <;> exact ⟨rfl, rfl, rfl⟩
  | timeout j => obtain ⟨-, rfl⟩ := timeout_cases h; exact ⟨rfl, rfl, rfl⟩
  | wakeup j => obtain ⟨-, rfl⟩ := wakeup_cases h; exact ⟨rfl, rfl, rfl⟩
  | reacquire j =>
      obtain ⟨-, ⟨-, rfl⟩ | ⟨-, rfl⟩⟩ := reacquire_cases h <;> exact ⟨rfl, rfl, rfl⟩
  | ret j => obtain ⟨-, rfl⟩ := ret_cases h; exact ⟨rfl, rfl, rfl⟩
  | test j => obtain ⟨-, -, -, -, rfl⟩ := test_cases h; exact ⟨rfl, rfl, rfl⟩
  | clear j => obtain ⟨-, -, rfl⟩ := clear_cases h; exact ⟨rfl, rfl, rfl⟩
  | unlock j => obtain ⟨-, -, rfl⟩ := unlock_cases h; exact ⟨rfl, rfl, rfl⟩

end Cases

/-! ## The threads of a timer used in time -/

/-- Only the holder of the mutex is where it is held. -/
def Exclusive (s : Timer) : Prop := ∀ i, (s.pc i).holds = true → s.mtx = some i

/-- All threads but the latest one are past; after a stop so is what could call back, and
after a start the latest one is on time. -/
structure OneThread (s : Timer) : Prop where
  exclusive : s.Exclusive
  older : ∀ i, i + 1 ≠ s.threads → (s.pc i).past = true
  never : s.latestCall = none → s.m_active = false ∧ s.threads = 0
  stopped : s.latestCall = some .stop → s.m_active = false ∧ ∀ i, (s.pc i).quiet = true
  started : s.latestCall = some .start → s.threads ≠ 0 ∧ ∀ i, i + 1 = s.threads →
    (s.pc i).onTime = true ∧ (s.m_active = true ↔ (s.pc i).expired = false) ∧
      (s.pc i = .waiting → s.m_bWait = true)

theorem OneThread.asCalled {s : Timer} (h : OneThread s) : AsCalled s where
  silent := by
    intro hcall i hpc
    have hq := (h.stopped hcall).2 i
    rw [hpc] at hq
    cases hq
  active := by
    cases hcall : s.latestCall with
    | none =>
        have hm := (h.never hcall).1
        simp [Pending, hcall, hm]
    | some c =>
        cases c with
        | stop =>
            have hm := (h.stopped hcall).1
            simp [Pending, hcall, hm]
        | start =>
            obtain ⟨hne, hlast⟩ := h.started hcall
            have hi : s.threads - 1 + 1 = s.threads := by omega
            constructor
            · intro hm
              refine ⟨hcall, fun i hi => ?_⟩
              exact (hlast i hi).2.1.mp hm
            · intro hp
              exact (hlast _ hi).2.1.mpr (hp.2 _ hi)

section Moves

variable {s t : Timer} {i : Nat} {pc : RunPc}

theorem Exclusive.keep (h : s.Exclusive) (hpc : t.pc = Function.update s.pc i pc)
    (hm : t.mtx = s.mtx) (hholds : pc.holds = true → (s.pc i).holds = true) : t.Exclusive := by
  intro j hj
  rw [hm]
  by_cases heq : j = i
  · rw [hpc, heq, Function.update_self] at hj
    rw [heq]
    exact h i (hholds hj)
  · rw [hpc, Function.update_of_ne heq] at hj
    exact h j hj

theorem Exclusive.take (h : s.Exclusive) (hpc : t.pc = Function.update s.pc i pc)
    (hfree : s.mtx = none) (hm : t.mtx = some i) : t.Exclusive := by
  intro j hj
  by_cases heq : j = i
  · rw [hm, heq]
  · rw [hpc, Function.update_of_ne heq] at hj
    have hno := h j hj
    rw [hfree] at hno
    cases hno

theorem Exclusive.leave (h : s.Exclusive) (hpc : t.pc = Function.update s.pc i pc)
    (hheld : (s.pc i).holds = true) (hholds : pc.holds = false) : t.Exclusive := by
  intro j hj
  by_cases heq : j = i
  · rw [hpc, heq, Function.update_self, hholds] at hj
    cases hj
  · rw [hpc, Function.update_of_ne heq] at hj
    have hsame := (h i hheld).symm.trans (h j hj)
    exact absurd (Option.some.inj hsame).symm heq

/-- A thread moves on: it stays past, quiet or on time, and when it clears `m_active` it is
through or was not on time. -/
theorem OneThread.move (h : OneThread s) (hpc : t.pc = Function.update s.pc i pc)
    (hthreads : t.threads = s.threads) (hcall : t.latestCall = s.latestCall)
    (hexcl : t.Exclusive) (hpast : (s.pc i).past = true → pc.past = true)
    (hquiet : (s.pc i).quiet = true → pc.quiet = true)
    (honTime : (s.pc i).onTime = true → pc.onTime = true)
    (hactive : t.m_active = s.m_active ∧ pc.expired = (s.pc i).expired ∨
      t.m_active = false ∧ (s.pc i).past = false ∧
        ((s.pc i).onTime = true → pc.expired = true))
    (hwait : t.m_bWait = true ∨ t.m_bWait = s.m_bWait ∧ pc ≠ .waiting) : OneThread t := by
  have hinactive : s.m_active = false → t.m_active = false := by
    intro hm
    cases hactive with
    | inl ha => exact ha.1.trans hm
    | inr ha => exact ha.1
  refine ⟨hexcl, ?_, ?_, ?_, ?_⟩
  · intro j hj
    rw [hthreads] at hj
    have hold := h.older j hj
    by_cases heq : j = i
    · rw [hpc, heq, Function.update_self]
      exact hpast (heq ▸ hold)
    · rw [hpc, Function.update_of_ne heq]
      exact hold
  · intro hc
    rw [hcall] at hc
    rw [hthreads]
    exact ⟨hinactive (h.never hc).1, (h.never hc).2⟩
  · intro hc
    rw [hcall] at hc
    obtain ⟨hm, hq⟩ := h.stopped hc
    refine ⟨hinactive hm, fun j => ?_⟩
    by_cases heq : j = i
    · rw [hpc, heq, Function.update_self]
      exact hquiet (hq i)
    · rw [hpc, Function.update_of_ne heq]
      exact hq j
  · intro hc
    rw [hcall] at hc
    obtain ⟨hne, hlast⟩ := h.started hc
    rw [hthreads]
    refine ⟨hne, fun j hj => ?_⟩
    obtain ⟨hon, hact, hw⟩ := hlast j hj
    by_cases heq : j = i
    · subst heq
      rw [hpc, Function.update_self]
      refine ⟨honTime hon, ?_, ?_⟩
      · cases hactive with
        | inl ha =>
            rw [ha.1, ha.2]
            exact hact
        | inr ha => simp [ha.1, ha.2.2 hon]
      · intro hp
        cases hwait with
        | inl hb => exact hb
        | inr hb => exact absurd hp hb.2
    · rw [hpc, Function.update_of_ne heq]
      have hother : i + 1 ≠ s.threads := fun hi => heq (by omega)
      have hm : t.m_active = s.m_active := by
        cases hactive with
        | inl ha => exact ha.1
        | inr ha => simp [h.older i hother] at ha
      refine ⟨hon, hm ▸ hact, fun hp => ?_⟩
      cases hwait with
      | inl hb => exact hb
      | inr hb => exact hb.1.trans (hw hp)

end Moves

theorem exclusive_thread {s t : Timer} {l : ThreadLabel} (h : s.Exclusive)
    (hs : s.threadStep l = some t) : t.Exclusive := by
  cases l with
  | lock i =>
      obtain ⟨hpc, hm, rfl⟩ := lock_cases hs
      exact h.take rfl hm rfl
  | wait i now =>
      obtain ⟨hpc, ⟨-, rfl⟩ | ⟨-, rfl⟩⟩ := wait_cases hs
      · exact h.leave rfl (by rw [hpc]; rfl) rfl
      · exact h.keep rfl rfl (by simp [hpc, RunPc.holds])
  | timeout i =>
      obtain ⟨hpc, rfl⟩ := timeout_cases hs
      exact h.keep rfl rfl (by simp [RunPc.holds])
  | wakeup i =>
      obtain ⟨hpc, rfl⟩ := wakeup_cases hs
      exact h.keep rfl rfl (by simp [RunPc.holds])
  | reacquire i =>
      obtain ⟨hm, ⟨-, rfl⟩ | ⟨-, rfl⟩⟩ := reacquire_cases hs
      · exact h.take rfl hm rfl
      · exact h.take rfl hm rfl
  | ret i =>
      obtain ⟨hpc, rfl⟩ := ret_cases hs
      exact h.keep rfl rfl (by simp [hpc, RunPc.holds])
  | test i =>
      obtain ⟨ret, pc, hpc, -, rfl⟩ := test_cases hs
      exact h.keep rfl rfl (by simp [hpc, RunPc.holds])
  | clear i =>
      obtain ⟨ret, hpc, rfl⟩ := clear_cases hs
      exact h.keep rfl rfl (by simp [hpc, RunPc.holds])
  | unlock i =>
      obtain ⟨ret, hpc, rfl⟩ := unlock_cases hs
      exact h.leave rfl (by rw [hpc]; rfl) rfl

theorem exclusive_create {s t : Timer} (h : s.Exclusive)
    (hpc : t.pc = Function.update s.pc s.threads .created) (hm : t.mtx = s.mtx) : t.Exclusive :=
  h.keep hpc hm (by simp [RunPc.holds])

theorem exclusive_start {s : Timer} (h : s.Exclusive) (sec msec : Int) (rep : Bool) :
    (s.start sec msec rep).Exclusive :=
  exclusive_create (s := s) h rfl rfl

theorem exclusive_startArray {s : Timer} (h : s.Exclusive) (arr_msec : List Int) (rep : Bool) :
    (s.startArray arr_msec rep).Exclusive :=
  exclusive_create (s := s) h rfl rfl

theorem exclusive_stop {s t : Timer} {signaled : Option Nat} (h : s.Exclusive)
    (hs : s.stop signaled = some t) : t.Exclusive := by
  obtain ⟨-, -, rfl⟩ := stop_cases hs
  cases signaled with
  | none => exact h
  | some i => exact h.keep (i := i) rfl rfl (by simp [RunPc.holds])

/-- Every thread there is was created. -/
def Born (s : Timer) : Prop := ∀ i, s.pc i ≠ .absent → i < s.threads

theorem born_create {s t : Timer} (h : s.Born)
    (hpc : t.pc = Function.update s.pc s.threads .created)
    (hthreads : t.threads = s.threads + 1) : t.Born := by
  intro i hi
  by_cases heq : i = s.threads
  · omega
  · rw [hpc, Function.update_of_ne heq] at hi
    have hold := h i hi
    omega

theorem born_move {s t : Timer} {i : Nat} {pc : RunPc} (h : s.Born) (hi : s.pc i ≠ .absent)
    (hpc : t.pc = Function.update s.pc i pc) (hthreads : t.threads = s.threads) : t.Born := by
  intro j hj
  rw [hthreads]
  by_cases heq : j = i
  · exact heq ▸ h i hi
  · rw [hpc, Function.update_of_ne heq] at hj
    exact h j hj

theorem born_stop {s t : Timer} {signaled : Option Nat} (h : s.Born)
    (hs : s.stop signaled = some t) : t.Born := by
  obtain ⟨-, hsig, rfl⟩ := stop_cases hs
  cases signaled with
  | none => exact h
  | some i => exact born_move h (i := i) (by simp [hsig.2]) rfl rfl

theorem born_new (array : Bool) (m_sec m_msec : Int) (m_repeat : Bool) (m_arr_msec : Nat → Int)
    (m_arr_index : Nat) : Born (new array m_sec m_msec m_repeat m_arr_msec m_arr_index) :=
  fun _ h => absurd rfl h

theorem oneThread_thread {s t : Timer} {l : ThreadLabel} (h : OneThread s)
    (hg : s.InTime (.thread l)) (hs : s.threadStep l = some t) : OneThread t := by
  have hexcl := exclusive_thread h.exclusive hs
  cases l with
  | lock i =>
      obtain ⟨hpc, hm, rfl⟩ := lock_cases hs
      exact h.move rfl rfl rfl hexcl (by simp [hpc, RunPc.past])
        (by simp [hpc, RunPc.quiet]) (fun _ => rfl) (.inl ⟨rfl, by rw [hpc]; rfl⟩)
        (.inr ⟨rfl, by simp⟩)
  | wait i now =>
      obtain ⟨hpc, ⟨-, rfl⟩ | ⟨hv, -⟩⟩ := wait_cases hs
      · exact h.move rfl rfl rfl hexcl
          (by simp [hpc, RunPc.past]) (by simp [hpc, RunPc.quiet]) (fun _ => rfl)
          (.inl ⟨rfl, by rw [hpc]; rfl⟩) (.inl rfl)
      · exact absurd hg hv
  | timeout i =>
      obtain ⟨hpc, rfl⟩ := timeout_cases hs
      exact h.move rfl rfl rfl hexcl
        (by simp [hpc, RunPc.past]) (by simp [hpc, RunPc.quiet]) (fun _ => rfl)
        (.inl ⟨rfl, by rw [hpc]; rfl⟩) (.inr ⟨rfl, by simp⟩)
  | wakeup i => exact hg.elim
  | reacquire i =>
      obtain ⟨hm, ⟨hpc, rfl⟩ | ⟨hpc, rfl⟩⟩ := reacquire_cases hs
      · exact h.move rfl rfl rfl hexcl (by simp [hpc, RunPc.past])
          (fun _ => rfl) (by simp [hpc, RunPc.onTime]) (.inl ⟨rfl, by rw [hpc]; rfl⟩)
          (.inr ⟨rfl, by simp⟩)
      · exact h.move rfl rfl rfl hexcl (by simp [hpc, RunPc.past])
          (by simp [hpc, RunPc.quiet]) (fun _ => rfl) (.inl ⟨rfl, by rw [hpc]; rfl⟩)
          (.inr ⟨rfl, by simp⟩)
  | ret i =>
      obtain ⟨hpc, rfl⟩ := ret_cases hs
      exact h.move rfl rfl rfl hexcl
        (by simp [hpc, RunPc.past]) (by simp [hpc, RunPc.quiet]) (fun _ => rfl)
        (.inl ⟨rfl, by rw [hpc]; rfl⟩) (.inr ⟨rfl, by simp⟩)
  | test i =>
      obtain ⟨ret, pc, hpc, hnext, rfl⟩ := test_cases hs
      cases hnext with
      | inl hlocked =>
          subst hlocked
          exact h.move rfl rfl rfl hexcl
            (by simp [hpc, RunPc.past]) (by simp [hpc, RunPc.quiet]) (fun _ => rfl)
            (.inl ⟨rfl, by rw [hpc]; rfl⟩) (.inr ⟨rfl, by simp⟩)
      | inr hleaving =>
          subst hleaving
          refine h.move rfl rfl rfl hexcl
            (by simp [hpc, RunPc.past]) (by simp [hpc, RunPc.quiet]) ?_
            (.inl ⟨rfl, by rw [hpc]; rfl⟩) (.inr ⟨rfl, by simp⟩)
          rw [hpc]
          cases ret <;> simp [RunPc.onTime]
  | clear i =>
      obtain ⟨ret, hpc, rfl⟩ := clear_cases hs
      refine h.move rfl rfl rfl hexcl
        (by simp [hpc, RunPc.past]) (fun _ => rfl) ?_ (.inr ⟨rfl, by rw [hpc]; rfl, ?_⟩)
        (.inr ⟨rfl, by simp⟩)
      · rw [hpc]
        cases ret <;> simp [RunPc.onTime]
      · rw [hpc]
        cases ret <;> simp [RunPc.onTime, RunPc.expired]
  | unlock i =>
      obtain ⟨ret, hpc, rfl⟩ := unlock_cases hs
      refine h.move rfl rfl rfl hexcl (fun _ => rfl)
        (fun _ => rfl) ?_ (.inl ⟨rfl, ?_⟩) (.inr ⟨rfl, by simp⟩)
      · rw [hpc]
        cases ret <;> simp [RunPc.onTime]
      · rw [hpc]
        cases ret <;> rfl

theorem OneThread.create {s t : Timer} (h : OneThread s) (hpast : ∀ i, (s.pc i).past = true)
    (hpc : t.pc = Function.update s.pc s.threads .created) (hthreads : t.threads = s.threads + 1)
    (hcall : t.latestCall = some .start) (hactive : t.m_active = true) (hm : t.mtx = s.mtx) :
    OneThread t := by
  refine ⟨exclusive_create h.exclusive hpc hm, ?_, ?_, ?_, ?_⟩
  · intro i hi
    have hne : i ≠ s.threads := by omega
    rw [hpc, Function.update_of_ne hne]
    exact hpast i
  · intro hc
    rw [hcall] at hc
    cases hc
  · intro hc
    rw [hcall] at hc
    cases hc
  · intro _
    refine ⟨by omega, fun i hi => ?_⟩
    have heq : i = s.threads := by omega
    rw [hpc, heq, Function.update_self]
    simp [RunPc.onTime, RunPc.expired, hactive]

/-- What a stop leaves quiet: a thread on time, outside the mutex, that neither waits nor is
about to wait or to call back. -/
theorem RunPc.quiet_of_onTime {pc : RunPc} (h : pc.onTime = true) (hholds : pc.holds ≠ true)
    (hcreated : pc ≠ .created) (hwoken : pc ≠ .woken .ETIMEDOUT) (hwaiting : pc ≠ .waiting) :
    pc.quiet = true := by
  cases pc with
  | ended => rfl
  | created => exact absurd rfl hcreated
  | waiting => exact absurd rfl hwaiting
  | woken ret =>
      cases ret with
      | zero => rfl
      | ETIMEDOUT => exact absurd rfl hwoken
      | EINVAL => cases h
  | absent => rfl
  | locked | calling | testing | leaving | unlocking => exact absurd rfl hholds

theorem oneThread_stop {s t : Timer} {signaled : Option Nat} (h : OneThread s)
    (hg : s.InTime (.stop signaled)) (hs : s.stop signaled = some t) : OneThread t := by
  have hexcl := exclusive_stop h.exclusive hs
  obtain ⟨hm, hsig, rfl⟩ := stop_cases hs
  have hfree (i : Nat) : (s.pc i).holds ≠ true := by
    intro hh
    have hno := h.exclusive i hh
    rw [hm] at hno
    cases hno
  have hlatest (i : Nat) (hw : s.pc i = .waiting) : i + 1 = s.threads := by
    by_contra hi
    have hp := h.older i hi
    rw [hw] at hp
    cases hp
  have hquiet (i : Nat) (hw : s.pc i ≠ .waiting) : (s.pc i).quiet = true := by
    by_cases hi : i + 1 = s.threads
    · cases hcall : s.latestCall with
      | none =>
          have hz := (h.never hcall).2
          omega
      | some c =>
          cases c with
          | stop => exact (h.stopped hcall).2 i
          | start =>
              have hon := ((h.started hcall).2 i hi).1
              exact RunPc.quiet_of_onTime hon (hfree i) (hg i).1 (hg i).2 hw
    · exact RunPc.quiet_of_past (h.older i hi)
  cases signaled with
  | none =>
      have hnone : ∀ i, s.pc i ≠ .waiting := by
        intro i hw
        have hlast := hlatest i hw
        cases hcall : s.latestCall with
        | none =>
            have hz := (h.never hcall).2
            omega
        | some c =>
            cases c with
            | stop =>
                have hq := (h.stopped hcall).2 i
                rw [hw] at hq
                cases hq
            | start =>
                have hb := ((h.started hcall).2 i hlast).2.2 hw
                exact hsig ⟨hb, i, by omega, hw⟩
      refine ⟨hexcl, h.older, fun hc => (nomatch hc), fun _ => ⟨rfl, fun i => ?_⟩,
        fun hc => (nomatch hc)⟩
      exact hquiet i (hnone i)
  | some i =>
      have hw : s.pc i = .waiting := hsig.2
      have hlast := hlatest i hw
      refine ⟨hexcl, ?_, fun hc => (nomatch hc), fun _ => ⟨rfl, fun j => ?_⟩,
        fun hc => (nomatch hc)⟩
      · intro j hj
        have hne : j ≠ i := fun heq => hj (heq ▸ hlast)
        change (Function.update s.pc i _ j).past = true
        rw [Function.update_of_ne hne]
        exact h.older j hj
      · change (Function.update s.pc i _ j).quiet = true
        by_cases heq : j = i
        · rw [heq, Function.update_self]
          rfl
        · rw [Function.update_of_ne heq]
          have hj : j + 1 ≠ s.threads := fun hj => heq (by omega)
          exact RunPc.quiet_of_past (h.older j hj)

theorem oneThread_step (s : Timer) (l : TimerLabel) (t : Timer) (h : OneThread s)
    (hg : s.InTime l) (hs : timer.step s l = some t) : OneThread t := by
  cases l with
  | start sec msec rep =>
      simp only [timer, step] at hs
      split at hs
      · cases hs
      · cases hs
        exact h.create hg rfl rfl rfl rfl rfl
  | startArray arr_msec rep =>
      simp only [timer, step] at hs
      split at hs
      · cases hs
        exact h.create hg rfl rfl rfl rfl rfl
      · cases hs
  | stop signaled => exact oneThread_stop h hg hs
  | thread l => exact oneThread_thread h hg hs

theorem oneThread_new (array : Bool) (m_sec m_msec : Int) (m_repeat : Bool)
    (m_arr_msec : Nat → Int) (m_arr_index : Nat) :
    OneThread (new array m_sec m_msec m_repeat m_arr_msec m_arr_index) where
  exclusive _ h := nomatch h
  older _ _ := rfl
  never _ := ⟨rfl, rfl⟩
  stopped h := nomatch h
  started h := nomatch h

/-- A timer of either kind keeps what its calls promise in every run whose steps are in time. -/
theorem asCalled_of_inTime (array : Bool) (m_sec m_msec : Int) (m_repeat : Bool)
    (m_arr_msec : Nat → Int) (m_arr_index : Nat) (labels : List TimerLabel)
    (h : timer.AllSteps InTime (new array m_sec m_msec m_repeat m_arr_msec m_arr_index) labels) :
    timer.AllStates AsCalled (new array m_sec m_msec m_repeat m_arr_msec m_arr_index) labels :=
  Machine.allStates_of_allSteps (fun _ h => h.asCalled) oneThread_step
    (oneThread_new array m_sec m_msec m_repeat m_arr_msec m_arr_index) h

/-- A timer made with `cbFunc` in memory that was zero. -/
def fresh : Timer := new false 0 0 false (fun _ => 0) 0

/-- Half a second, stopped while the thread waits. -/
theorem asCalled_of_inTime_stopped :
    timer.AllStates AsCalled fresh
      [.start 0 500 false, .thread (.lock 0), .thread (.wait 0 0), .stop (some 0),
        .thread (.reacquire 0), .thread (.clear 0), .thread (.unlock 0)] := by
  refine asCalled_of_inTime false 0 0 false (fun _ => 0) 0 _ (.cons rfl (fun _ => rfl)
    (.cons rfl trivial (.cons rfl (show (deadline 0 0 500).Valid by decide) (.cons rfl ?_
      (.cons rfl trivial (.cons rfl trivial (.cons rfl trivial trivial)))))))
  intro i
  by_cases hi : i = 0 <;> simp [new, start, create, at_, hi]

/-- A stop before the thread waits is not seen by it; and a thread that was stopped marks the
timer of the next start as inactive. -/
theorem stopped_timer_calls_back :
    ¬ timer.AllStates AsCalled fresh
        [.start 0 500 false, .stop none, .thread (.lock 0), .thread (.wait 0 0),
          .thread (.timeout 0), .thread (.reacquire 0)] ∧
      ¬ timer.AllStates AsCalled fresh
        [.start 0 500 false, .thread (.lock 0), .thread (.wait 0 0), .stop (some 0),
          .start 0 500 false, .thread (.reacquire 0), .thread (.clear 0)] := by
  constructor
  · intro h
    exact (h.last rfl).silent rfl 0 rfl
  · intro h
    have hactive := (h.last rfl).active.mpr ⟨rfl, fun i hi => ?_⟩
    · cases hactive
    · obtain rfl : i = 1 := by
        change i + 1 = 2 at hi
        omega
      rfl

end Timer

end Acu.Tools
