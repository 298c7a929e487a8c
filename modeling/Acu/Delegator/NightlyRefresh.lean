import Acu.Delegator.CbTimer
import Acu.Tools.Timer

/-!
# The refresh at three o'clock

A tick follows the end of the callback before it by the interval of the timer, so that
ticks drift by the durations of the callbacks. The refresh of the database runs in a
tick whose local time begins with 03:00.
-/

namespace Acu.Delegator

open Acu.Core Tools

/-- `App::TIMER_INTERVAL`. -/
abbrev TIMER_INTERVAL : Int := 60

/-- The time of each tick in microseconds: `run` waits anew when the callback has returned. -/
def tickTime (start : Int) (duration : Nat → Int) : Nat → Int
  | 0 => (Timer.deadline start TIMER_INTERVAL 0).micros
  | n + 1 => (Timer.deadline (tickTime start duration n + duration n) TIMER_INTERVAL 0).micros

/-! ## Local time -/

/-- `time(NULL)` in a zone that is `zone` seconds ahead, in seconds. -/
def localSeconds (zone t : Int) : Int := t / 1000000 + zone

def localDay (zone t : Int) : Int := localSeconds zone t / 86400

/-- `tm_hour` of `localtime_r`. -/
def localHour (zone t : Int) : Int := localSeconds zone t % 86400 / 3600

/-- `tm_min` of `localtime_r`. -/
def localMin (zone t : Int) : Int := localSeconds zone t % 3600 / 60

/-- The first microsecond of a day. -/
def midnight (zone day : Int) : Int := (86400 * day - zone) * 1000000

/-- 03:00:00 of a day. -/
def three (zone day : Int) : Int := midnight zone day + 10800 * 1000000

/-- A timer that runs on: when it was started, how long its callbacks took, and its ticks with the
local times they read. -/
structure TimerRun where
  zone : Int
  start : Int
  duration : Nat → Int
  duration_ge : ∀ n, 0 ≤ duration n
  duration_le : ∀ n, duration n ≤ 60 * 1000000
  tick : Nat → Tick
  tm_hour : ∀ n, (tick n).now.tm_hour = localHour zone (tickTime start duration n)
  tm_min : ∀ n, (tick n).now.tm_min = localMin zone (tickTime start duration n)

namespace TimerRun

def time (r : TimerRun) (n : Nat) : Int := tickTime r.start r.duration n

/-- A tick of the day makes the forced refresh. -/
def RefreshedOn (r : TimerRun) (day : Int) : Prop :=
  ∃ n, localDay r.zone (r.time n) = day ∧ (r.tick n).AtThree

/-- Some callback begins before three o'clock of the day and has not ended then. -/
def BusyAtThree (r : TimerRun) (day : Int) : Prop :=
  ∃ n, r.time n < three r.zone day ∧ three r.zone day ≤ r.time n + r.duration n

end TimerRun

/-! ## The ticks -/

/-- At three o'clock a tick refreshes by force, at any other time it does not. -/
theorem nightly_forced (cfg : Employee.Config) (s : TimerState) (i : Tick) :
    s.nightly cfg i =
      if i.AtThree then do
        let mgr ← updateLocalDB cfg s.m_employInfoMrg true i.nightly
        return { s with m_employInfoMrg := mgr }
      else return s := by
  unfold TimerState.nightly
  by_cases hzero : i.now.tm_hour = 0 ∧ i.now.tm_min = 0
  · have hno : ¬ i.AtThree := by
      unfold Tick.AtThree
      omega
    rw [if_pos hzero, if_neg hno]
  · rw [if_neg hzero]
    by_cases hthree : i.AtThree
    · have hthree' : i.now.tm_hour = 3 ∧ i.now.tm_min = 0 := hthree
      rw [if_pos hthree, if_pos hthree']
    · have hthree' : ¬ (i.now.tm_hour = 3 ∧ i.now.tm_min = 0) := hthree
      rw [if_neg hthree, if_neg hthree']

section Times

variable (r : TimerRun)

theorem time_zero : r.time 0 = r.start + 60 * 1000000 := by
  show (Timer.deadline r.start TIMER_INTERVAL 0).micros = _
  unfold Timer.deadline TIMER_INTERVAL
  rw [if_neg (by decide), Condition.timedwaitSec_micros]
  omega

/-- The next tick comes the interval after the end of the callback. -/
theorem time_succ (n : Nat) : r.time (n + 1) = r.time n + r.duration n + 60 * 1000000 := by
  show (Timer.deadline (r.time n + r.duration n) TIMER_INTERVAL 0).micros = _
  unfold Timer.deadline TIMER_INTERVAL
  rw [if_neg (by decide), Condition.timedwaitSec_micros]
  omega

theorem time_mono {m n : Nat} (h : m ≤ n) : r.time m ≤ r.time n := by
  induction h with
  | refl => exact Int.le_refl _
  | @step k _ ih =>
      show r.time m ≤ r.time (k + 1)
      have hnext := time_succ r k
      have hd := r.duration_ge k
      omega

/-- The ticks get beyond every time. -/
theorem time_ge (n : Nat) : r.start + 60 * 1000000 * (n + 1) ≤ r.time n := by
  induction n with
  | zero =>
      have hzero := time_zero r
      omega
  | succ n ih =>
      have hnext := time_succ r n
      have hd := r.duration_ge n
      push_cast
      omega

/-- The minute of the refresh. -/
theorem atThree_iff (n : Nat) (day : Int) :
    localDay r.zone (r.time n) = day ∧ (r.tick n).AtThree ↔
      three r.zone day ≤ r.time n ∧ r.time n < three r.zone day + 60 * 1000000 := by
  unfold Tick.AtThree
  rw [r.tm_hour, r.tm_min]
  show localDay r.zone (r.time n) = day ∧ localHour r.zone (r.time n) = 3 ∧
    localMin r.zone (r.time n) = 0 ↔ _
  unfold localDay localHour localMin localSeconds three midnight
  omega

/-- A callback that is still running at three o'clock keeps the next tick out of the minute. -/
theorem not_refreshed_of_busy {day : Int} (h : r.BusyAtThree day) : ¬ r.RefreshedOn day := by
  intro hrefreshed
  rcases h with ⟨n, hbefore, hbusy⟩
  rcases hrefreshed with ⟨m, hm⟩
  obtain ⟨hlow, hhigh⟩ := (atThree_iff r m day).mp hm
  have hnext := time_succ r n
  by_cases hmn : m ≤ n
  · have hle := time_mono r hmn
    omega
  · have hle := time_mono r (show n + 1 ≤ m by omega)
    omega

/-- A sequence that starts below `x` and comes to it has a last value below it. -/
theorem exists_crossing {f : Nat → Int} {x : Int} {n : Nat} (hzero : f 0 < x) (hn : x ≤ f n) :
    ∃ m, f m < x ∧ x ≤ f (m + 1) := by
  induction n with
  | zero => omega
  | succ k ih =>
      by_cases hk : x ≤ f k
      · exact ih hk
      · exact ⟨k, by omega, hn⟩

/-- Some tick is the last before three o'clock. -/
theorem last_before_three {day : Int} (hstart : r.start ≤ midnight r.zone day) :
    ∃ n, r.time n < three r.zone day ∧ three r.zone day ≤ r.time (n + 1) := by
  have hlate : three r.zone day = midnight r.zone day + 10800 * 1000000 := rfl
  have hfirst := time_zero r
  have hge := time_ge r (three r.zone day - r.start).toNat
  rw [Int.toNat_of_nonneg (by omega)] at hge
  apply exists_crossing (n := (three r.zone day - r.start).toNat)
  · omega
  · omega

end Times

/-- On a day on which the timer runs from the beginning, the database is refreshed precisely when
no callback that began before three o'clock is still running then. -/
theorem refreshed_iff_not_busy (r : TimerRun) (day : Int)
    (hstart : r.start ≤ midnight r.zone day) :
    r.RefreshedOn day ↔ ¬ r.BusyAtThree day := by
  constructor
  · intro h hbusy
    exact not_refreshed_of_busy r hbusy h
  · intro hfree
    obtain ⟨n, hbefore, hafter⟩ := last_before_three r hstart
    have hended : r.time n + r.duration n < three r.zone day := by
      by_contra hbusy
      exact hfree ⟨n, hbefore, by omega⟩
    have hnext := time_succ r n
    exact ⟨n + 1, (atThree_iff r (n + 1) day).mpr ⟨hafter, by omega⟩⟩

/-- Ticks that end in 59 seconds, with callbacks that take no time up to the one before three
o'clock. -/
def lateRun (last : Int) (hlast : 0 ≤ last ∧ last ≤ 60 * 1000000) : TimerRun where
  zone := 0
  start := -61 * 1000000
  duration := fun n => if n = 180 then last else 0
  duration_ge := by
    intro n
    split
    · exact hlast.1
    · exact Int.le_refl 0
  duration_le := by
    intro n
    split
    · exact hlast.2
    · decide
  tick := fun n =>
    let t := tickTime (-61 * 1000000) (fun n => if n = 180 then last else 0) n
    { offlineTick ⟨-1, 0, []⟩ with now := ⟨70, 0, 1, localHour 0 t, localMin 0 t, 59⟩ }
  tm_hour := fun _ => rfl
  tm_min := fun _ => rfl

theorem lateRun_time (last : Int) (hlast : 0 ≤ last ∧ last ≤ 60 * 1000000) {n : Nat}
    (hn : n ≤ 180) : (lateRun last hlast).time n = -1000000 + 60 * 1000000 * n := by
  induction n with
  | zero => rw [time_zero]; rfl
  | succ n ih =>
      have hno : ¬ n = 180 := by omega
      have hd : (lateRun last hlast).duration n = 0 := if_neg hno
      rw [time_succ, ih (by omega), hd]
      push_cast
      omega

/-- A callback of one second at 02:59:59 puts the next tick at 03:01:00. -/
theorem refresh_missed :
    ¬ (lateRun 1000000 ⟨by decide, by decide⟩).RefreshedOn 0 := by
  apply not_refreshed_of_busy
  refine ⟨180, ?_, ?_⟩
  · rw [lateRun_time _ _ (Nat.le_refl 180)]
    decide
  · rw [lateRun_time _ _ (Nat.le_refl 180)]
    decide

/-- A callback that takes half a second lets it be at 03:00:59. -/
theorem refreshed_iff_not_busy_late :
    (lateRun 500000 ⟨by decide, by decide⟩).RefreshedOn 0 ↔
      ¬ (lateRun 500000 ⟨by decide, by decide⟩).BusyAtThree 0 :=
  refreshed_iff_not_busy _ 0 (by decide)

end Acu.Delegator
