import Acu.Core.Signed
import Acu.Tools.TimerThread

/-!
# Deadlines

The absolute time that `timedwait(sec, msec)` passes on, computed in the types of the
code. Microseconds are carried into the seconds once, whatever `msec` is.
-/

namespace Acu.Tools

open Acu.Core

/-- What a platform makes of `long` and `time_t`. -/
structure Platform where
  LONG_MAX : Int
  TIME_MAX : Int
  int_long : INT_MAX ≤ LONG_MAX

/-- A time as `gettimeofday` tells it. -/
structure Timeval (p : Platform) where
  tv_sec : Int
  tv_usec : Int
  sec_bounds : -p.TIME_MAX - 1 ≤ tv_sec ∧ tv_sec ≤ p.TIME_MAX
  usec_bounds : 0 ≤ tv_usec ∧ tv_usec < 1000000

/-- The value `ts_timeout` has when the wait begins, in the text of both classes. -/
def tsTimeout (p : Platform) (tv : Timeval p) (sec msec : Int) : Option Timespec := do
  let product ← signed? INT_MAX (msec * 1000)
  let usec ← signed? p.LONG_MAX (tv.tv_usec + product)
  if usec ≥ 1000000 then
    let tv_sec ← signed? p.TIME_MAX (tv.tv_sec + sec)
    let tv_sec ← signed? p.TIME_MAX (tv_sec + 1)
    let tv_nsec ← signed? p.LONG_MAX ((usec - 1000000) * 1000)
    some ⟨tv_sec, tv_nsec⟩
  else
    let tv_sec ← signed? p.TIME_MAX (tv.tv_sec + sec)
    let tv_nsec ← signed? p.LONG_MAX (usec * 1000)
    some ⟨tv_sec, tv_nsec⟩

/-- `Condition::timedwait(m, sec, msec)`. -/
def Condition.timedwait (p : Platform) (tv : Timeval p) (sec msec : Int) : Option Timespec :=
  tsTimeout p tv sec msec

/-- `Semaphore::timedwait(sec, msec)`. -/
def Semaphore.timedwait (p : Platform) (tv : Timeval p) (sec msec : Int) : Option Timespec :=
  tsTimeout p tv sec msec

section Deadline

variable {p : Platform} {tv : Timeval p} {sec msec : Int}

/-- A valid time, which is `sec` seconds and `msec` milliseconds from now. -/
def RightTime (tv : Timeval p) (sec msec : Int) (r : Option Timespec) : Prop :=
  ∃ ts, r = some ts ∧ ts.Valid ∧
    ts.tv_sec * 1000000000 + ts.tv_nsec =
      (tv.tv_sec * 1000000 + tv.tv_usec) * 1000 + sec * 1000000000 + msec * 1000000

/-- What is left behind one carry is less than a second, and the seconds can be counted. -/
def CarriesOnce (p : Platform) (tv : Timeval p) (sec msec : Int) : Prop :=
  tv.tv_usec + 1000 * msec < 2000000 ∧
    tv.tv_sec + sec + (tv.tv_usec + 1000 * msec) / 1000000 ≤ p.TIME_MAX

/-- The time of a wait in its seconds and microseconds. -/
theorem timedwaitMsec_timeval (tv : Timeval p) (sec msec : Int) :
    Condition.timedwaitMsec (tv.tv_sec * 1000000 + tv.tv_usec) sec msec =
      if tv.tv_usec + msec * 1000 ≥ 1000000 then
        ⟨tv.tv_sec + sec + 1, (tv.tv_usec + msec * 1000 - 1000000) * 1000⟩
      else ⟨tv.tv_sec + sec, (tv.tv_usec + msec * 1000) * 1000⟩ := by
  obtain ⟨husec0, husec⟩ := tv.usec_bounds
  have hdiv : (tv.tv_sec * 1000000 + tv.tv_usec) / 1000000 = tv.tv_sec := by omega
  have hmod : (tv.tv_sec * 1000000 + tv.tv_usec) % 1000000 = tv.tv_usec := by omega
  rw [Condition.timedwaitMsec, hdiv, hmod]

/-- Without overflow it is the time computed over all integers. -/
theorem tsTimeout_eq_some {ts : Timespec} (h : tsTimeout p tv sec msec = some ts) :
    ts = Condition.timedwaitMsec (tv.tv_sec * 1000000 + tv.tv_usec) sec msec ∧
      ts.tv_sec ≤ p.TIME_MAX := by
  obtain ⟨product, hproduct, h⟩ := Option.bind_eq_some_iff.mp h
  obtain ⟨rfl, -⟩ := signed?_eq_some_iff.mp hproduct
  obtain ⟨usec, husec', h⟩ := Option.bind_eq_some_iff.mp h
  obtain ⟨rfl, -⟩ := signed?_eq_some_iff.mp husec'
  rw [timedwaitMsec_timeval]
  by_cases hcarry : tv.tv_usec + msec * 1000 ≥ 1000000
  · rw [if_pos hcarry] at h
    obtain ⟨_, hsum, h⟩ := Option.bind_eq_some_iff.mp h
    obtain ⟨rfl, -⟩ := signed?_eq_some_iff.mp hsum
    obtain ⟨_, hsec, h⟩ := Option.bind_eq_some_iff.mp h
    obtain ⟨rfl, -, hmax⟩ := signed?_eq_some_iff.mp hsec
    obtain ⟨_, hnsec, h⟩ := Option.bind_eq_some_iff.mp h
    obtain ⟨rfl, -⟩ := signed?_eq_some_iff.mp hnsec
    cases h
    exact ⟨(if_pos hcarry).symm, hmax⟩
  · rw [if_neg hcarry] at h
    obtain ⟨_, hsec, h⟩ := Option.bind_eq_some_iff.mp h
    obtain ⟨rfl, -, hmax⟩ := signed?_eq_some_iff.mp hsec
    obtain ⟨_, hnsec, h⟩ := Option.bind_eq_some_iff.mp h
    obtain ⟨rfl, -⟩ := signed?_eq_some_iff.mp hnsec
    cases h
    exact ⟨(if_neg hcarry).symm, hmax⟩

/-- Where one carry is enough, nothing overflows. -/
theorem tsTimeout_of_carriesOnce (hsec : 0 ≤ sec) (hmsec : 0 ≤ msec)
    (h : CarriesOnce p tv sec msec) : ∃ ts, tsTimeout p tv sec msec = some ts := by
  obtain ⟨hsmall, hmax⟩ := h
  obtain ⟨husec0, husec⟩ := tv.usec_bounds
  obtain ⟨hmin, -⟩ := tv.sec_bounds
  have hlong := p.int_long
  have hint : INT_MAX = 2147483647 := rfl
  have hproduct := signed?_of_fits INT_MAX (msec * 1000) (by omega)
  have husec' := signed?_of_fits p.LONG_MAX (tv.tv_usec + msec * 1000) (by omega)
  have hsum := signed?_of_fits p.TIME_MAX (tv.tv_sec + sec) (by omega)
  rw [tsTimeout, hproduct, Option.bind_eq_bind, Option.bind_some, husec', Option.bind_some]
  by_cases hcarry : tv.tv_usec + msec * 1000 ≥ 1000000
  · have hnext := signed?_of_fits p.TIME_MAX (tv.tv_sec + sec + 1) (by omega)
    have hnsec := signed?_of_fits p.LONG_MAX ((tv.tv_usec + msec * 1000 - 1000000) * 1000)
      (by omega)
    rw [if_pos hcarry, hsum, Option.bind_some, hnext, Option.bind_some, hnsec, Option.bind_some]
    exact ⟨_, rfl⟩
  · have hnsec := signed?_of_fits p.LONG_MAX ((tv.tv_usec + msec * 1000) * 1000) (by omega)
    rw [if_neg hcarry, hsum, Option.bind_some, hnsec, Option.bind_some]
    exact ⟨_, rfl⟩

/-- The time over all integers is a valid one when one carry is enough. -/
theorem timedwaitMsec_valid_iff (now sec : Int) {msec : Int} (h0 : 0 ≤ msec) :
    (Condition.timedwaitMsec now sec msec).Valid ↔ now % 1000000 + 1000 * msec < 2000000 := by
  simp only [Condition.timedwaitMsec, Timespec.Valid]
  split
  · dsimp only
    omega
  · dsimp only
    omega

theorem tsTimeout_right_iff (hsec : 0 ≤ sec) (hmsec : 0 ≤ msec) :
    RightTime tv sec msec (tsTimeout p tv sec msec) ↔ CarriesOnce p tv sec msec := by
  obtain ⟨husec0, husec⟩ := tv.usec_bounds
  have hmod : (tv.tv_sec * 1000000 + tv.tv_usec) % 1000000 = tv.tv_usec := by omega
  constructor
  · rintro ⟨ts, hts, hvalid, hsum⟩
    obtain ⟨heq, hmax⟩ := tsTimeout_eq_some hts
    have hvalid' := hvalid
    rw [heq, timedwaitMsec_valid_iff _ _ hmsec, hmod] at hvalid'
    refine ⟨hvalid', ?_⟩
    unfold Timespec.Valid at hvalid
    omega
  · intro h
    obtain ⟨ts, hts⟩ := tsTimeout_of_carriesOnce hsec hmsec h
    obtain ⟨heq, -⟩ := tsTimeout_eq_some hts
    have hvalid : ts.Valid := by
      rw [heq, timedwaitMsec_valid_iff _ _ hmsec, hmod]
      exact h.1
    refine ⟨ts, hts, hvalid, ?_⟩
    rw [heq, timedwaitMsec_timeval]
    split
    · dsimp only
      omega
    · dsimp only
      omega

end Deadline

/-! ## The loop of a timer -/

/-- The calls of a timer with one duration, and the steps of its threads. -/
inductive DurationLabel where
  | start (sec msec : Count) (rep : Bool)
  | stop (signaled : Option Nat)
  | thread (l : ThreadLabel)

def DurationLabel.label : DurationLabel → TimerLabel
  | .start sec msec rep => .start sec.val msec.val rep
  | .stop signaled => .stop signaled
  | .thread l => .thread l

def durationTimer : Machine Timer DurationLabel where
  step s l := timer.step s l.label

namespace Timer

/-- No thread goes round its loop from a wait that returned at once. -/
def NeverSpins (s : Timer) : Prop := ∀ i, s.pc i ≠ .testing .EINVAL

/-- No wait begins so late in a second that one carry is not enough. -/
def WaitCarriesOnce (s : Timer) : DurationLabel → Prop
  | .thread (.wait _ now) => now % 1000000 + 1000 * s.m_msec < 2000000
  | _ => True

section Steps

variable {s t : Timer}

theorem pc_at_invalid {i j : Nat} {pc : RunPc} (h : (s.at_ i pc).pc j = .testing .EINVAL)
    (hpc : pc ≠ .testing .EINVAL) : s.pc j = .testing .EINVAL :=
  (pc_at_cases h).resolve_right fun hnew => hpc hnew.2

/-- Only a wait for a time that is not valid comes back without having waited. -/
theorem thread_invalid {l : ThreadLabel} (h : s.threadStep l = some t) {i : Nat}
    (hi : t.pc i = .testing .EINVAL) :
    s.pc i = .testing .EINVAL ∨ ∃ now, l = .wait i now ∧ ¬ (s.waitTime now).Valid := by
  cases l with
  | lock j =>
      obtain ⟨-, -, rfl⟩ := lock_cases h
      exact .inl (pc_at_invalid hi (by simp))
  | wait j now =>
      obtain ⟨-, ⟨-, rfl⟩ | ⟨hinvalid, rfl⟩⟩ := wait_cases h
      · exact .inl (pc_at_invalid hi (by simp))
      · exact (pc_at_cases hi).imp_right fun hnew => ⟨now, by rw [hnew.1], hinvalid⟩
  | timeout j =>
      obtain ⟨-, rfl⟩ := timeout_cases h
      exact .inl (pc_at_invalid hi (by simp))
  | wakeup j =>
      obtain ⟨-, rfl⟩ := wakeup_cases h
      exact .inl (pc_at_invalid hi (by simp))
  | reacquire j =>
      obtain ⟨-, ⟨-, rfl⟩ | ⟨-, rfl⟩⟩ := reacquire_cases h
      · exact .inl (pc_at_invalid hi (by simp))
      · exact .inl (pc_at_invalid hi (by simp))
  | ret j =>
      obtain ⟨-, rfl⟩ := ret_cases h
      exact .inl (pc_at_invalid hi (by simp))
  | test j =>
      obtain ⟨ret, pc, -, rfl | rfl, rfl⟩ := test_cases h
      · exact .inl (pc_at_invalid hi (by simp))
      · exact .inl (pc_at_invalid hi (by simp))
  | clear j =>
      obtain ⟨ret, -, rfl⟩ := clear_cases h
      exact .inl (pc_at_invalid hi (by simp))
  | unlock j =>
      obtain ⟨ret, -, rfl⟩ := unlock_cases h
      exact .inl (pc_at_invalid hi (by simp))

/-- There is one duration, and once there is a thread it has been set by a start. -/
structure OneDuration (s : Timer) : Prop where
  single : s.array = false
  counted : ∀ i, s.pc i ≠ .absent → 0 ≤ s.m_msec
  spins : s.NeverSpins

theorem OneDuration.waitTime_valid_iff (h : s.OneDuration) {i : Nat} (hi : s.pc i ≠ .absent)
    (now : Int) : (s.waitTime now).Valid ↔ now % 1000000 + 1000 * s.m_msec < 2000000 := by
  have hcounted := h.counted i hi
  rw [waitTime, h.single, if_neg Bool.false_ne_true, deadline]
  split
  next => exact timedwaitMsec_valid_iff now s.m_sec hcounted
  next hzero =>
    refine iff_of_true (Condition.timedwaitSec_valid _ _) ?_
    omega

theorem oneDuration_step (s : Timer) (l : DurationLabel) (t : Timer) (h : s.OneDuration)
    (hg : s.WaitCarriesOnce l) (ht : durationTimer.step s l = some t) : t.OneDuration := by
  cases l with
  | start sec msec rep =>
      simp only [durationTimer, timer, DurationLabel.label, step, h.single] at ht
      cases ht
      refine ⟨h.single, fun _ _ => msec.property.1, fun i hi => ?_⟩
      rcases pc_at_cases hi with hold | hnew
      · exact h.spins i hold
      · cases hnew.2
  | stop signaled =>
      obtain ⟨-, hsig, rfl⟩ := stop_cases ht
      cases signaled with
      | none => exact ⟨h.single, h.counted, h.spins⟩
      | some j =>
          refine ⟨h.single, fun i hi => ?_, fun i hi => ?_⟩
          · exact h.counted j (by simp [hsig.2])
          · rcases pc_at_cases hi with hold | hnew
            · exact h.spins i hold
            · cases hnew.2
  | thread l =>
      obtain ⟨pc, hthere, hpc, -, harray, -⟩ := thread_cases ht
      refine ⟨harray.trans h.single, fun _ _ => ?_, fun i hi => ?_⟩
      · rw [(thread_keeps ht).1]
        exact h.counted l.index hthere
      · rcases thread_invalid ht hi with hold | ⟨now, rfl, hinvalid⟩
        · exact h.spins i hold
        · exact hinvalid ((h.waitTime_valid_iff hthere now).mpr hg)

/-- A wait that carries more than once comes back at once. -/
theorem spins_of_carries (s : Timer) (l : DurationLabel) (t : Timer) (h : s.OneDuration)
    (hg : ¬ s.WaitCarriesOnce l) (ht : durationTimer.step s l = some t) : ¬ t.NeverSpins := by
  cases l with
  | start | stop => exact absurd trivial hg
  | thread l =>
      cases l with
      | wait i now =>
          obtain ⟨hpc, hcase⟩ := wait_cases ht
          have hthere : s.pc i ≠ .absent := by simp [hpc]
          rcases hcase with ⟨hvalid, -⟩ | ⟨-, rfl⟩
          · exact absurd ((h.waitTime_valid_iff hthere now).mp hvalid) hg
          · exact fun hspins => hspins i (pc_at_self s i _)
      | lock | timeout | wakeup | reacquire | ret | test | clear | unlock =>
          exact absurd trivial hg

theorem oneDuration_new (m_sec m_msec : Int) (m_repeat : Bool) (m_arr_msec : Nat → Int)
    (m_arr_index : Nat) : (new false m_sec m_msec m_repeat m_arr_msec m_arr_index).OneDuration where
  single := rfl
  counted _ hi := absurd rfl hi
  spins _ hi := nomatch hi

end Steps

end Timer

/-- Both classes pass on the right time precisely when one carry is enough, and in every run of a
timer with one duration no wait comes back at once precisely when it is enough for every wait. -/
theorem deadline_right_iff (p : Platform) :
    (∀ (tv : Timeval p) (sec msec : Count),
      (RightTime tv sec.val msec.val (Condition.timedwait p tv sec.val msec.val) ↔
        CarriesOnce p tv sec.val msec.val) ∧
      (RightTime tv sec.val msec.val (Semaphore.timedwait p tv sec.val msec.val) ↔
        CarriesOnce p tv sec.val msec.val)) ∧
    ∀ m_sec m_msec m_repeat m_arr_msec m_arr_index labels,
      durationTimer.AllStates Timer.NeverSpins
          (Timer.new false m_sec m_msec m_repeat m_arr_msec m_arr_index) labels ↔
        durationTimer.AllSteps Timer.WaitCarriesOnce
          (Timer.new false m_sec m_msec m_repeat m_arr_msec m_arr_index) labels := by
  refine ⟨fun tv sec msec => ⟨?_, ?_⟩, ?_⟩
  · exact tsTimeout_right_iff sec.property.1 msec.property.1
  · exact tsTimeout_right_iff sec.property.1 msec.property.1
  · intro m_sec m_msec m_repeat m_arr_msec m_arr_index labels
    exact Machine.allStates_iff_allSteps (fun _ h => h.spins) Timer.oneDuration_step
      Timer.spins_of_carries (Timer.oneDuration_new m_sec m_msec m_repeat m_arr_msec m_arr_index)
      labels

/-- A platform whose words have 32 bits. -/
def platform32 : Platform := ⟨2147483647, 2147483647, by decide⟩

/-- The beginning of a second. -/
def firstSecond : Timeval platform32 := ⟨1, 0, by decide, by decide⟩

/-- Two thousand milliseconds from there are passed on as a whole second of nanoseconds. -/
theorem two_seconds_in_milliseconds :
    ¬ RightTime firstSecond 0 2000 (Condition.timedwait platform32 firstSecond 0 2000) := by
  rintro ⟨ts, hts, hvalid, -⟩
  have hrun : Condition.timedwait platform32 firstSecond 0 2000 = some ⟨2, 1000000000⟩ := by decide
  cases hts.symm.trans hrun
  exact absurd hvalid (by decide)

end Acu.Tools
