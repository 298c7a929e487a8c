import Mathlib.Tactic.Common

/-!
# Timed waits

The absolute times a timer thread waits for. A time is counted in microseconds,
and a wait takes it as seconds and nanoseconds.
-/

namespace Acu.Tools

structure Timespec where
  tv_sec : Int
  tv_nsec : Int
  deriving DecidableEq, Repr

namespace Timespec

/-- `pthread_cond_timedwait` returns `EINVAL` at once for any other value. -/
def Valid (ts : Timespec) : Prop := 0 ≤ ts.tv_nsec ∧ ts.tv_nsec < 1000000000

instance (ts : Timespec) : Decidable ts.Valid := inferInstanceAs (Decidable (_ ∧ _))

def micros (ts : Timespec) : Int := ts.tv_sec * 1000000 + ts.tv_nsec / 1000

end Timespec

namespace Condition

/-- The time `timedwait(m, count)` waits for. -/
def timedwaitSec (now count : Int) : Timespec := ⟨now / 1000000 + count, now % 1000000 * 1000⟩

/-- The time `timedwait(m, sec, msec)` waits for. -/
def timedwaitMsec (now sec msec : Int) : Timespec :=
  let tv_sec := now / 1000000
  let tv_usec := now % 1000000
  let usec := tv_usec + msec * 1000
  if usec ≥ 1000000 then ⟨tv_sec + sec + 1, (usec - 1000000) * 1000⟩
  else ⟨tv_sec + sec, usec * 1000⟩

theorem timedwaitSec_micros (now count : Int) :
    (timedwaitSec now count).micros = now + 1000000 * count := by
  dsimp only [timedwaitSec, Timespec.micros]
  omega

theorem timedwaitSec_valid (now count : Int) : (timedwaitSec now count).Valid := by
  dsimp only [timedwaitSec, Timespec.Valid]
  omega

theorem timedwaitMsec_micros (now sec msec : Int) :
    (timedwaitMsec now sec msec).micros = now + 1000000 * sec + 1000 * msec := by
  simp only [timedwaitMsec, Timespec.micros]
  split
  · dsimp only
    omega
  · dsimp only
    omega

theorem timedwaitMsec_valid (now sec : Int) {msec : Int} (h0 : 0 ≤ msec) (h : msec < 1000) :
    (timedwaitMsec now sec msec).Valid := by
  simp only [timedwaitMsec, Timespec.Valid]
  split
  · dsimp only
    omega
  · dsimp only
    omega

end Condition

namespace Timer

/-- The time for which `run` waits in one round that begins at `now`. -/
def deadline (now m_sec m_msec : Int) : Timespec :=
  if m_msec ≠ 0 then Condition.timedwaitMsec now m_sec m_msec
  else Condition.timedwaitSec now m_sec

/-- The wait of `start(t / 1000, t % 1000)`, with the division of the language. -/
def deadlineMillis (now t : Int) : Timespec := deadline now (t.tdiv 1000) (t.tmod 1000)

theorem deadlineMillis_micros (now t : Int) : (deadlineMillis now t).micros = now + 1000 * t := by
  have hsplit : 1000 * t.tdiv 1000 + t.tmod 1000 = t := Int.mul_tdiv_add_tmod t 1000
  unfold deadlineMillis deadline
  split
  · rw [Condition.timedwaitMsec_micros]
    omega
  · rw [Condition.timedwaitSec_micros]
    omega

theorem deadlineMillis_valid {t : Int} (now : Int) (ht : 0 ≤ t) :
    (deadlineMillis now t).Valid := by
  unfold deadlineMillis deadline
  split
  · exact Condition.timedwaitMsec_valid _ _ (Int.tmod_nonneg 1000 ht)
      (Int.tmod_lt_of_pos t (by decide))
  · exact Condition.timedwaitSec_valid _ _

end Timer

end Acu.Tools
