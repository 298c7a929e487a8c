import Acu.Core.Machine
import Acu.Tools.Timer

/-!
# Pulses on an output

`SwitchGpio::on(t)` sets the output and starts a timer that clears it; `off`
clears it at once. Time goes on by single microseconds, and a timer thread whose
deadline has come runs before anything else does. A timer object that was deleted
while its thread still waits is taken to keep its contents.
-/

namespace Acu.Hardware

open Acu.Core Tools

/-- A timer thread in `timedwait`: its object, by number of creation, and its deadline. -/
structure Waiting where
  timer : Nat
  deadline : Int
  deriving DecidableEq, Repr

/-- The calls as they are seen from outside. -/
inductive Call where
  | on (t : Int)
  | off
  deriving DecidableEq, Repr

/-- The latest call and its time are history. -/
structure SwitchGpio where
  now : Int
  output : Bool
  m_timer : Option Nat
  waiting : List Waiting
  created : Nat
  latest : Option (Call × Int)
  deriving DecidableEq, Repr

inductive SwitchLabel where
  | tick
  | call (c : Call)
  deriving DecidableEq, Repr

namespace SwitchGpio

def write (s : SwitchGpio) (v : Bool) : SwitchGpio := { s with output := v }

/-- The expiry of one timer: whatever `m_timer` points to is deleted. -/
def cbOnTimer (s : SwitchGpio) : SwitchGpio := { s.write false with m_timer := none }

def due (s : SwitchGpio) (w : Waiting) : Bool := decide (w.deadline ≤ s.now)

/-- The threads whose deadline has come leave their wait and call back, one by one. -/
def expire (s : SwitchGpio) : SwitchGpio :=
  (s.waiting.filter s.due).foldl (fun s _ => s.cbOnTimer)
    { s with waiting := s.waiting.filter fun w => !s.due w }

def tick (s : SwitchGpio) : SwitchGpio := expire { s with now := s.now + 1 }

/-- `on(t)`: a thread whose time is not accepted ends without a callback. -/
def on (s : SwitchGpio) (t : Int) : SwitchGpio :=
  let ts := Timer.deadlineMillis s.now t
  let started := if ts.Valid then s.waiting ++ [⟨s.created, ts.micros⟩] else s.waiting
  expire ({ s with m_timer := some s.created, waiting := started, created := s.created + 1 }.write
    true)

/-- `m_timer && m_timer->IsActive()`. -/
def active (s : SwitchGpio) : Bool := s.waiting.any fun w => s.m_timer == some w.timer

/-- `off`: the timer that `m_timer` points to is stopped, and no other one. -/
def off (s : SwitchGpio) : SwitchGpio :=
  let waiting :=
    if s.active then s.waiting.filter fun w => !(s.m_timer == some w.timer) else s.waiting
  { s with waiting := waiting }.write false

def step (s : SwitchGpio) : SwitchLabel → Option SwitchGpio
  | .tick => some s.tick
  | .call (.on t) => some { s.on t with latest := some (.on t, s.now) }
  | .call .off => some { s.off with latest := some (.off, s.now) }

/-- A switch whose output was written off when it was opened. -/
def start (now : Int) : SwitchGpio := ⟨now, false, none, [], 0, none⟩

end SwitchGpio

def switch : Machine SwitchGpio SwitchLabel where
  step := SwitchGpio.step

/-- The latest call was an `on(t)` less than `t` milliseconds ago. -/
def PulseRuns (s : SwitchGpio) : Prop :=
  ∃ t called, s.latest = some (.on t, called) ∧ s.now - called < 1000 * t

def FollowsLatestCall (s : SwitchGpio) : Prop := s.output = true ↔ PulseRuns s

/-- No timer comes to its deadline in this microsecond while the pulse of the latest call
still runs, and no call asks for a time that the wait does not accept. -/
def NoEarlyExpiry (s : SwitchGpio) : SwitchLabel → Prop
  | .tick => (∃ w ∈ s.waiting, w.deadline ≤ s.now + 1) → ¬ PulseRuns { s with now := s.now + 1 }
  | .call (.on t) => (Timer.deadlineMillis s.now t).Valid
  | .call .off => True

/-! ## Expiry -/

theorem foldl_cbOnTimer (ws : List Waiting) (s : SwitchGpio) :
    ws.foldl (fun s _ => s.cbOnTimer) s =
      if ws = [] then s else { s with output := false, m_timer := none } := by
  induction ws generalizing s with
  | nil => rfl
  | cons w ws ih =>
      rw [List.foldl_cons, ih, if_neg (List.cons_ne_nil w ws)]
      split
      · rfl
      · rfl

/-- Without a deadline that has come, nothing changes. -/
theorem expire_of_none_due {s : SwitchGpio} (h : ∀ w ∈ s.waiting, s.now < w.deadline) :
    s.expire = s := by
  have hkeep : s.waiting.filter (fun w => !s.due w) = s.waiting := by
    rw [List.filter_eq_self]
    intro w hw
    simpa [SwitchGpio.due] using h w hw
  have hdue : s.waiting.filter s.due = [] := by
    rw [List.filter_eq_nil_iff]
    intro w hw
    simpa [SwitchGpio.due] using h w hw
  rw [SwitchGpio.expire, hdue, hkeep]
  rfl

/-- With one, the output is off. -/
theorem expire_of_due {s : SwitchGpio} (h : ∃ w ∈ s.waiting, w.deadline ≤ s.now) :
    s.expire = { s with
      output := false
      m_timer := none
      waiting := s.waiting.filter fun w => !s.due w } := by
  rcases h with ⟨w, hw, hdue⟩
  have hne : s.waiting.filter s.due ≠ [] :=
    List.ne_nil_of_mem (List.mem_filter.mpr ⟨hw, decide_eq_true hdue⟩)
  rw [SwitchGpio.expire, foldl_cbOnTimer, if_neg hne]

theorem expire_latest (s : SwitchGpio) : s.expire.latest = s.latest := by
  rw [SwitchGpio.expire, foldl_cbOnTimer]
  split <;> rfl

theorem expire_now (s : SwitchGpio) : s.expire.now = s.now := by
  rw [SwitchGpio.expire, foldl_cbOnTimer]
  split <;> rfl

theorem expire_waiting (s : SwitchGpio) :
    s.expire.waiting = s.waiting.filter fun w => !s.due w := by
  rw [SwitchGpio.expire, foldl_cbOnTimer]
  split <;> rfl

/-- What is left waiting is not due. -/
theorem expire_not_due (s : SwitchGpio) : ∀ w ∈ s.expire.waiting, s.expire.now < w.deadline := by
  intro w hw
  rw [expire_waiting, List.mem_filter] at hw
  rw [expire_now]
  simpa [SwitchGpio.due] using hw.2

/-! ## The law along a run -/

/-- A pulse that runs has a thread waiting for its end, and every wait lies ahead. -/
structure Timed (s : SwitchGpio) : Prop where
  law : FollowsLatestCall s
  ahead : ∀ w ∈ s.waiting, s.now < w.deadline
  ends : ∀ t called, s.latest = some (.on t, called) → s.now - called < 1000 * t →
    ∃ w ∈ s.waiting, w.deadline = called + 1000 * t

theorem PulseRuns.of_tick {s : SwitchGpio} (h : PulseRuns { s with now := s.now + 1 }) :
    PulseRuns s := by
  rcases h with ⟨t, called, hl, ht⟩
  refine ⟨t, called, hl, ?_⟩
  dsimp only at ht
  omega

theorem Timed.tick {s : SwitchGpio} (h : Timed s) (hg : NoEarlyExpiry s .tick) : Timed s.tick := by
  by_cases hdue : ∃ w ∈ s.waiting, w.deadline ≤ s.now + 1
  · have hover : ¬ PulseRuns { s with now := s.now + 1 } := hg hdue
    have htick : s.tick = _ := expire_of_due (s := { s with now := s.now + 1 }) hdue
    refine ⟨?_, expire_not_due _, fun t called hl ht => ?_⟩
    · rw [FollowsLatestCall, htick]
      exact iff_of_false Bool.false_ne_true hover
    · rw [SwitchGpio.tick, expire_latest] at hl
      rw [SwitchGpio.tick, expire_now] at ht
      exact (hover ⟨t, called, hl, ht⟩).elim
  · have hnone : ∀ w ∈ s.waiting, s.now + 1 < w.deadline := by
      intro w hw
      by_contra hle
      exact hdue ⟨w, hw, Int.not_lt.mp hle⟩
    have htick : s.tick = { s with now := s.now + 1 } := expire_of_none_due hnone
    rw [htick]
    -- with nothing due, the pulse does not end either: its own thread would be due
    have hstill : ∀ t called, s.latest = some (.on t, called) → s.now - called < 1000 * t →
        s.now + 1 - called < 1000 * t := by
      intro t called hl ht
      obtain ⟨w, hw, hend⟩ := h.ends t called hl ht
      have := hnone w hw
      omega
    refine ⟨?_, hnone, fun t called hl ht => h.ends t called hl ?_⟩
    · constructor
      · intro hout
        obtain ⟨t, called, hl, ht⟩ := h.law.mp hout
        exact ⟨t, called, hl, hstill t called hl ht⟩
      · exact fun hruns => h.law.mpr hruns.of_tick
    · dsimp only at ht
      omega

theorem Timed.on {s : SwitchGpio} (h : Timed s) {t : Int}
    (hvalid : (Timer.deadlineMillis s.now t).Valid) :
    Timed { s.on t with latest := some (.on t, s.now) } := by
  have hnow : (s.on t).now = s.now := expire_now _
  have hwaiting : (s.on t).waiting = (s.waiting ++ [Waiting.mk s.created (s.now + 1000 * t)]).filter
      fun w => !decide (w.deadline ≤ s.now) := by
    rw [SwitchGpio.on, expire_waiting, if_pos hvalid, Timer.deadlineMillis_micros]
    rfl
  have hruns : PulseRuns { s.on t with latest := some (.on t, s.now) } ↔ 0 < t := by
    constructor
    · intro h
      rcases h with ⟨t', called, hl, ht⟩
      cases hl
      dsimp only at ht
      omega
    · intro ht
      refine ⟨t, s.now, rfl, ?_⟩
      dsimp only
      omega
  have hout : (s.on t).output = decide (0 < t) := by
    rw [SwitchGpio.on, if_pos hvalid, Timer.deadlineMillis_micros]
    by_cases ht : 0 < t
    · rw [expire_of_none_due, decide_eq_true ht]
      · rfl
      · intro w hw
        rcases List.mem_append.mp hw with hw | hw
        · exact h.ahead w hw
        · rw [List.mem_singleton.mp hw]
          change s.now < s.now + 1000 * t
          omega
    · rw [expire_of_due, decide_eq_false ht]
      refine ⟨⟨s.created, s.now + 1000 * t⟩,
        List.mem_append_right _ (List.mem_singleton_self _), ?_⟩
      change s.now + 1000 * t ≤ s.now
      omega
  refine ⟨?_, fun w hw => expire_not_due _ w hw, fun t' called hl ht => ?_⟩
  · rw [FollowsLatestCall, hruns]
    change (s.on t).output = true ↔ 0 < t
    rw [hout, decide_eq_true_iff]
  · cases hl
    dsimp only at ht
    refine ⟨⟨s.created, s.now + 1000 * t⟩, ?_, rfl⟩
    change _ ∈ (s.on t).waiting
    rw [hwaiting, List.mem_filter]
    refine ⟨List.mem_append_right _ (List.mem_singleton_self _), ?_⟩
    simp only [Bool.not_eq_true', decide_eq_false_iff_not]
    omega

theorem Timed.off {s : SwitchGpio} (h : Timed s) :
    Timed { s.off with latest := some (.off, s.now) } := by
  refine ⟨iff_of_false Bool.false_ne_true ?_, fun w hw => h.ahead w ?_, ?_⟩
  · intro h
    rcases h with ⟨t, called, hl, _⟩
    cases hl
  · change w ∈ (if s.active then s.waiting.filter _ else s.waiting) at hw
    split at hw
    · exact (List.mem_filter.mp hw).1
    · exact hw
  · intro t called hl
    cases hl

theorem timed_step (s : SwitchGpio) (a : SwitchLabel) (t : SwitchGpio) (h : Timed s)
    (ha : NoEarlyExpiry s a) (hs : switch.step s a = some t) : Timed t := by
  cases a with
  | tick => obtain rfl := Option.some.inj hs; exact h.tick ha
  | call c =>
      cases c with
      | on t => obtain rfl := Option.some.inj hs; exact h.on ha
      | off => obtain rfl := Option.some.inj hs; exact h.off

/-- A step of the other kind breaks the law in the state it leads to. -/
theorem broken_of_early (s : SwitchGpio) (a : SwitchLabel) (t : SwitchGpio) (h : Timed s)
    (ha : ¬ NoEarlyExpiry s a) (hs : switch.step s a = some t) : ¬ FollowsLatestCall t := by
  cases a with
  | tick =>
      obtain rfl := Option.some.inj hs
      simp only [NoEarlyExpiry, Classical.not_imp, not_not] at ha
      rcases ha with ⟨hdue, hruns⟩
      have htick : s.tick = _ := expire_of_due (s := { s with now := s.now + 1 }) hdue
      intro hlaw
      rw [FollowsLatestCall, htick] at hlaw
      exact Bool.false_ne_true (hlaw.mpr hruns)
  | call c =>
      cases c with
      | on t =>
          obtain rfl := Option.some.inj hs
          have hinvalid : ¬ (Timer.deadlineMillis s.now t).Valid := ha
          have hneg : t < 0 := by
            by_contra hge
            exact hinvalid (Timer.deadlineMillis_valid s.now (Int.not_lt.mp hge))
          have hout : (s.on t).output = true := by
            rw [SwitchGpio.on, if_neg hinvalid, expire_of_none_due]
            · rfl
            · exact h.ahead
          intro hlaw
          obtain ⟨t', called, hl, ht⟩ := hlaw.mp hout
          cases hl
          have hnow : (s.on t).now = s.now := expire_now _
          change (s.on t).now - s.now < 1000 * t at ht
          omega
      | off => exact absurd trivial ha

theorem timed_start (now : Int) : Timed (SwitchGpio.start now) where
  law := iff_of_false Bool.false_ne_true fun ⟨_, _, hl, _⟩ => nomatch hl
  ahead _ hw := nomatch hw
  ends _ _ hl := nomatch hl

/-- The output follows the latest call at every microsecond exactly when no timer of an
earlier call expires into a running pulse, and every time that is asked for is accepted. -/
theorem followsLatestCall_iff (now : Int) (labels : List SwitchLabel) :
    switch.AllStates FollowsLatestCall (SwitchGpio.start now) labels ↔
      switch.AllSteps NoEarlyExpiry (SwitchGpio.start now) labels :=
  Machine.allStates_iff_allSteps (fun _ h => h.law) timed_step broken_of_early (timed_start now)
    labels

/-! ## A second pulse while the first one runs -/

/-- While no deadline comes, time just goes on. -/
theorem run_ticks (n : Nat) (s : SwitchGpio) (now : Int) (hnow : s.now + n = now)
    (h : ∀ w ∈ s.waiting, now < w.deadline) :
    switch.run s (List.replicate n .tick) = some { s with now := now } := by
  induction n generalizing s with
  | zero =>
      obtain rfl : s.now = now := by simpa using hnow
      rfl
  | succ n ih =>
      have hnone : ∀ w ∈ s.waiting, s.now + 1 < w.deadline := by
        intro w hw
        have := h w hw
        omega
      have htick : switch.step s .tick = some { s with now := s.now + 1 } :=
        congrArg some (expire_of_none_due (s := { s with now := s.now + 1 }) hnone)
      have hrest : s.now + 1 + n = now := by omega
      rw [List.replicate_succ, Machine.run_cons, htick, Option.bind_some]
      exact ih { s with now := s.now + 1 } hrest h

/-- The door relay, opened again 750 ms after it was opened, closes 750 ms after that. -/
theorem second_pulse_is_cut :
    ¬ switch.AllStates FollowsLatestCall (SwitchGpio.start 0)
      (.call (.on 1500) :: List.replicate 750000 .tick ++
        (.call (.on 1500) :: List.replicate 749999 .tick ++ [.tick])) := by
  intro h
  have hrun : switch.run (SwitchGpio.start 0)
      (.call (.on 1500) :: List.replicate 750000 .tick ++
        (.call (.on 1500) :: List.replicate 749999 .tick ++ [.tick])) =
      some ⟨1500000, false, none, [⟨1, 2250000⟩], 2, some (.on 1500, 750000)⟩ := by
    have h₁ : switch.step (SwitchGpio.start 0) (.call (.on 1500)) =
        some ⟨0, true, some 0, [⟨0, 1500000⟩], 1, some (.on 1500, 0)⟩ := by decide
    have h₂ : switch.step ⟨750000, true, some 0, [⟨0, 1500000⟩], 1, some (.on 1500, 0)⟩
        (.call (.on 1500)) =
        some ⟨750000, true, some 1, [⟨0, 1500000⟩, ⟨1, 2250000⟩], 2, some (.on 1500, 750000)⟩ := by
      decide
    rw [List.cons_append, Machine.run_cons, h₁, Option.bind_some, Machine.run_append,
      run_ticks _ _ 750000 (by decide) (by decide), Option.bind_some, List.cons_append,
      Machine.run_cons, h₂, Option.bind_some, Machine.run_append,
      run_ticks _ _ 1499999 (by decide) (by decide), Option.bind_some]
    decide
  exact absurd ((h.last hrun).mpr ⟨1500, 750000, rfl, by decide⟩) Bool.false_ne_true

end Acu.Hardware
