import Acu.Tools.TimerLoop
import Mathlib.Algebra.Order.Ring.Nat

/-!
# Patterns on an output

`SwitchGpio::on(arr, repeat)` sets the output and has a timer go through an array of
durations. At each expiry the output is written as the last bit of the index says.
-/

namespace Acu.Hardware

open Acu.Core Tools

/-- Positive durations that fit the array of the timer with the zero behind them. -/
structure Durations where
  arr : List Int
  nonempty : arr ≠ []
  room : arr.length ≤ 99
  positive : ∀ t ∈ arr, 0 < t

theorem Durations.length_pos (d : Durations) : 0 < d.arr.length :=
  List.length_pos_iff.mpr d.nonempty

theorem Durations.getD_pos (d : Durations) {j : Nat} (h : j < d.arr.length) :
    0 < d.arr.getD j 0 := by
  rw [List.getD_eq_getElem?_getD, List.getElem?_eq_getElem h, Option.getD_some]
  exact d.positive _ (List.getElem_mem h)

/-- The output with its timer. The number of expiries, and when the latest wait began and for
what time, are history. -/
structure ArraySwitch where
  output : Bool
  m_timer : Timer
  expiries : Nat
  latestWait : Option (Int × Timespec)

/-- The steps of the one thread; a wait ends when its time has come. -/
inductive ArrayLabel where
  | lock
  | wait (now : Int)
  | timeout
  | reacquire
  | ret
  | test
  | clear
  | unlock

def ArrayLabel.label : ArrayLabel → ThreadLabel
  | .lock => .lock 0
  | .wait now => .wait 0 now
  | .timeout => .timeout 0
  | .reacquire => .reacquire 0
  | .ret => .ret 0
  | .test => .test 0
  | .clear => .clear 0
  | .unlock => .unlock 0

namespace ArraySwitch

def write (s : ArraySwitch) (v : Bool) : ArraySwitch := { s with output := v }

def cbOnArrayTimer (i : Nat) (s : ArraySwitch) : ArraySwitch :=
  if i &&& 1 ≠ 0 then s.write true else s.write false

/-- `on(arr, repeat)`, with a new timer in memory that holds anything. -/
def on (output : Bool) (memory : Nat → Int) (arr : List Int) (rep : Bool) : ArraySwitch :=
  write ⟨output, (Timer.new true 0 0 false memory 0).startArray arr rep, 0, none⟩ true

def step (s : ArraySwitch) (l : ArrayLabel) : Option ArraySwitch :=
  (s.m_timer.threadStep l.label).map fun t =>
    match l with
    | .wait now => { s with m_timer := t, latestWait := some (now, s.m_timer.waitTime now) }
    | .ret =>
        { cbOnArrayTimer s.m_timer.m_arr_index s with m_timer := t, expiries := s.expiries + 1 }
    | _ => { s with m_timer := t }

end ArraySwitch

def arraySwitch : Machine ArraySwitch ArrayLabel where
  step := ArraySwitch.step

namespace ArraySwitch

/-- What a pattern is to do after `expiries` waits: the output has been inverted at each of them,
a further one lasts as long as the next duration, and without `rep` there are as many as
durations. -/
structure Alternates (d : Durations) (rep : Bool) (s : ArraySwitch) : Prop where
  level : s.output = decide (s.expiries % 2 = 0)
  lasts : s.m_timer.pc 0 = .waiting → ∃ now ts, s.latestWait = some (now, ts) ∧ ts.Valid ∧
    ts.micros = now + 1000 * d.arr.getD (s.expiries % d.arr.length) 0
  more : s.m_timer.pc 0 = .waiting → rep = false → s.expiries < d.arr.length
  left : (s.m_timer.pc 0).left = true → rep = false ∧ s.expiries = d.arr.length
  index : s.m_timer.m_arr_index ≤ d.arr.length
  goesOn : (∃ ret, s.m_timer.pc 0 = .ended ret) ∨ ∃ l t, arraySwitch.step s l = some t

/-! ## The rounds of the thread -/

/-- The output after so many expiries, when `n` durations are gone through. -/
def levelAfter (n : Nat) : Nat → Bool
  | 0 => true
  | k + 1 => decide (k % n % 2 = 1)

section Rounds

variable {d : Durations} {rep : Bool} {s t : ArraySwitch}

/-- In a wait, or on the way to one or from it. -/
def InRound (d : Durations) (rep : Bool) (k i : Nat) : Prop :=
  i = k % d.arr.length ∧ (rep = false → k < d.arr.length)

/-- Behind the last wait. -/
def Through (d : Durations) (rep : Bool) (k i : Nat) : Prop :=
  rep = false ∧ k = d.arr.length ∧ i = d.arr.length

/-- Index and mutex at each place of the thread, after `k` expiries. -/
def Place (d : Durations) (rep : Bool) (k i : Nat) (mtx : Option Nat)
    (latest : Option (Int × Timespec)) : RunPc → Prop
  | .created => InRound d rep k i ∧ mtx = none
  | .locked => InRound d rep k i ∧ mtx = some 0
  | .waiting => InRound d rep k i ∧ mtx = none ∧
      ∃ now, latest = some (now, Timer.deadlineMillis now (d.arr.getD i 0))
  | .woken .ETIMEDOUT => InRound d rep k i ∧ mtx = none
  | .calling => InRound d rep k i ∧ mtx = some 0
  | .testing .ETIMEDOUT => (∃ k', k = k' + 1 ∧ InRound d rep k' i) ∧ mtx = some 0
  | .leaving .ETIMEDOUT | .unlocking .ETIMEDOUT => Through d rep k i ∧ mtx = some 0
  | .ended .ETIMEDOUT => Through d rep k i
  | _ => False

structure Cycles (d : Durations) (rep : Bool) (s : ArraySwitch) : Prop where
  array : s.m_timer.array = true
  repeats : s.m_timer.m_repeat = rep
  copied : ∀ j < d.arr.length, s.m_timer.m_arr_msec j = d.arr.getD j 0
  zero : s.m_timer.m_arr_msec d.arr.length = 0
  level : s.output = levelAfter d.arr.length s.expiries
  place : Place d rep s.expiries s.m_timer.m_arr_index s.m_timer.mtx s.latestWait (s.m_timer.pc 0)

theorem cycles_on (d : Durations) (rep output : Bool) (memory : Nat → Int) (behind : List Int) :
    Cycles d rep (on output memory (d.arr ++ 0 :: behind) rep) := by
  have hcopy : (d.arr ++ 0 :: behind).takeWhile (· ≠ 0) = d.arr := by
    rw [List.takeWhile_append_of_pos, List.takeWhile_cons_of_neg (by simp), List.append_nil]
    intro t ht
    simpa using Int.ne_of_gt (d.positive t ht)
  refine ⟨rfl, rfl, fun j hj => ?_, ?_, rfl, ?_⟩
  · simp only [on, write, Timer.startArray, Timer.create, Timer.at_, hcopy]
    rw [if_pos hj]
  · simp only [on, write, Timer.startArray, Timer.create, Timer.at_, hcopy]
    rw [if_neg (Nat.lt_irrefl _), if_true]
  · exact ⟨⟨(Nat.zero_mod _).symm, fun _ => d.length_pos⟩, rfl⟩

theorem InRound.index_lt {k i : Nat} (h : InRound d rep k i) : i < d.arr.length :=
  h.1 ▸ Nat.mod_lt k d.length_pos

/-- What a step of the thread leaves alone of a pattern under way. -/
theorem Cycles.move (h : Cycles d rep s) {l : ThreadLabel}
    (hu : s.m_timer.threadStep l = some t.m_timer)
    (hlevel : t.output = levelAfter d.arr.length t.expiries)
    (hplace : Place d rep t.expiries t.m_timer.m_arr_index t.m_timer.mtx t.latestWait
      (t.m_timer.pc 0)) : Cycles d rep t := by
  obtain ⟨-, hrep, hmsec⟩ := Timer.thread_keeps hu
  obtain ⟨-, -, -, -, harray, -⟩ := Timer.thread_cases hu
  exact {
    array := harray.trans h.array
    repeats := hrep.trans h.repeats
    copied := fun j hj => by rw [hmsec, h.copied j hj]
    zero := by rw [hmsec, h.zero]
    level := hlevel
    place := hplace }

/-- Behind an expiry the next duration is taken, the first one again, or none. -/
theorem Cycles.next (h : Cycles d rep s) {k : Nat}
    (hin : InRound d rep k s.m_timer.m_arr_index) :
    (∃ i, s.m_timer.test = (true, i) ∧ InRound d rep (k + 1) i) ∨
      (s.m_timer.test = (false, d.arr.length) ∧ Through d rep (k + 1) d.arr.length) := by
  have hlt := hin.index_lt
  obtain ⟨hindex, hfew⟩ := hin
  have hmod : (k + 1) % d.arr.length = (s.m_timer.m_arr_index + 1) % d.arr.length := by
    rw [hindex, Nat.mod_add_mod]
  by_cases hlast : s.m_timer.m_arr_index + 1 = d.arr.length
  · have hzero : s.m_timer.m_arr_msec (s.m_timer.m_arr_index + 1) = 0 := hlast ▸ h.zero
    cases rep with
    | true =>
        have hnext : s.m_timer.nextIndex = 0 := if_pos ⟨hzero, h.repeats⟩
        refine .inl ⟨0, ?_, ?_, nofun⟩
        · rw [Timer.test, if_pos h.array, hnext, h.repeats, Bool.or_true]
        · rw [hmod, hlast, Nat.mod_self]
    | false =>
        have hnext : s.m_timer.nextIndex = d.arr.length :=
          (if_neg fun hn => by rw [h.repeats] at hn; exact nomatch hn.2).trans hlast
        have hk := hfew rfl
        rw [Nat.mod_eq_of_lt hk] at hindex
        refine .inr ⟨?_, rfl, by omega, rfl⟩
        rw [Timer.test, if_pos h.array, hnext, h.repeats, h.zero]
        rfl
  · have hnot : s.m_timer.m_arr_msec (s.m_timer.m_arr_index + 1) ≠ 0 := by
      rw [h.copied _ (by omega)]
      exact Int.ne_of_gt (d.getD_pos (by omega))
    have hnext : s.m_timer.nextIndex = s.m_timer.m_arr_index + 1 := if_neg fun hn => hnot hn.1
    refine .inl ⟨_, ?_, (hmod.trans (Nat.mod_eq_of_lt (by omega))).symm, fun hrep => ?_⟩
    · rw [Timer.test, if_pos h.array, hnext, decide_eq_true hnot, Bool.true_or]
    · have hk := hfew hrep
      rw [Nat.mod_eq_of_lt hk] at hindex
      omega

/-- The callback writes the parity of the index. -/
theorem output_cbOnArrayTimer (i : Nat) (s : ArraySwitch) :
    (cbOnArrayTimer i s).output = decide (i % 2 = 1) := by
  rw [cbOnArrayTimer, Nat.and_one_is_mod]
  by_cases h : i % 2 = 1
  · rw [if_pos (by omega), decide_eq_true h]
    rfl
  · rw [if_neg (by omega), decide_eq_false h]
    rfl

theorem Cycles.waitTime (h : Cycles d rep s) {k : Nat}
    (hin : InRound d rep k s.m_timer.m_arr_index) (now : Int) :
    s.m_timer.waitTime now =
        Timer.deadlineMillis now (d.arr.getD s.m_timer.m_arr_index 0) ∧
      (s.m_timer.waitTime now).Valid := by
  have hlt := hin.index_lt
  have htime : s.m_timer.waitTime now =
      Timer.deadlineMillis now (d.arr.getD s.m_timer.m_arr_index 0) := by
    rw [Timer.waitTime, if_pos h.array, h.copied _ hlt]
  exact ⟨htime, htime ▸ Timer.deadlineMillis_valid now (Int.le_of_lt (d.getD_pos hlt))⟩

theorem cycles_step (s : ArraySwitch) (l : ArrayLabel) (t : ArraySwitch) (h : Cycles d rep s)
    (ht : arraySwitch.step s l = some t) : Cycles d rep t := by
  obtain ⟨u, hu, rfl⟩ := Option.map_eq_some_iff.mp ht
  have hplace := h.place
  cases l with
  | lock =>
      obtain ⟨hpc, -, rfl⟩ := Timer.lock_cases hu
      rw [hpc] at hplace
      refine h.move hu h.level ?_
      simp only [Timer.pc_at_self]
      exact ⟨hplace.1, rfl⟩
  | wait now =>
      obtain ⟨hpc, hcase⟩ := Timer.wait_cases hu
      rw [hpc] at hplace
      obtain ⟨htime, hvalid⟩ := h.waitTime hplace.1 now
      rcases hcase with ⟨-, rfl⟩ | ⟨hinvalid, -⟩
      · refine h.move hu h.level ?_
        simp only [Timer.pc_at_self]
        exact ⟨hplace.1, rfl, now, congrArg (fun ts => some (now, ts)) htime⟩
      · exact absurd hvalid hinvalid
  | timeout =>
      obtain ⟨hpc, rfl⟩ := Timer.timeout_cases hu
      rw [hpc] at hplace
      refine h.move hu h.level ?_
      simp only [Timer.pc_at_self]
      exact ⟨hplace.1, hplace.2.1⟩
  | reacquire =>
      obtain ⟨-, ⟨hpc, -⟩ | ⟨hpc, rfl⟩⟩ := Timer.reacquire_cases hu
      · rw [hpc] at hplace
        exact hplace.elim
      · rw [hpc] at hplace
        refine h.move hu h.level ?_
        simp only [Timer.pc_at_self]
        exact ⟨hplace.1, rfl⟩
  | ret =>
      obtain ⟨hpc, rfl⟩ := Timer.ret_cases hu
      rw [hpc] at hplace
      refine h.move hu ?_ ?_
      · rw [levelAfter, ← hplace.1.1]
        exact output_cbOnArrayTimer _ s
      · simp only [Timer.pc_at_self]
        exact ⟨⟨s.expiries, rfl, hplace.1⟩, hplace.2⟩
  | test =>
      obtain ⟨ret, hpc, rfl⟩ := Timer.test_eq hu
      rw [hpc] at hplace
      cases ret with
      | zero | EINVAL => exact hplace.elim
      | ETIMEDOUT =>
          obtain ⟨⟨k, hk, hin⟩, hm⟩ := hplace
          refine h.move hu h.level ?_
          simp only [Timer.pc_at_self]
          rcases h.next hin with ⟨i, htest, hnext⟩ | ⟨htest, hnext⟩
          · simp only [htest, if_true, hk]
            exact ⟨hnext, hm⟩
          · simp only [htest, Bool.false_eq_true, if_false, hk]
            exact ⟨hnext, hm⟩
  | clear =>
      obtain ⟨ret, hpc, rfl⟩ := Timer.clear_cases hu
      rw [hpc] at hplace
      cases ret with
      | zero | EINVAL => exact hplace.elim
      | ETIMEDOUT =>
          refine h.move hu h.level ?_
          simp only [Timer.pc_at_self]
          exact hplace
  | unlock =>
      obtain ⟨ret, hpc, rfl⟩ := Timer.unlock_cases hu
      rw [hpc] at hplace
      cases ret with
      | zero | EINVAL => exact hplace.elim
      | ETIMEDOUT =>
          refine h.move hu h.level ?_
          simp only [Timer.pc_at_self]
          exact hplace.1

theorem cycles_run {labels : List ArrayLabel} (h : Cycles d rep s)
    (hr : arraySwitch.run s labels = some t) : Cycles d rep t :=
  Machine.run_invariant (fun s l t hs _ ht => cycles_step s l t hs ht) h
    (Machine.allSteps_of_forall (fun _ _ => trivial) s labels) hr

/-! ## What the pattern does -/

/-- The places in the loop and those behind it. -/
theorem Place.rounds {k i : Nat} {mtx : Option Nat} {latest : Option (Int × Timespec)} {pc : RunPc}
    (h : Place d rep k i mtx latest pc) :
    (pc.left = false ∧ (InRound d rep k i ∨ ∃ k', k = k' + 1 ∧ InRound d rep k' i)) ∨
      (pc.left = true ∧ Through d rep k i) := by
  cases pc with
  | absent => exact h.elim
  | created | locked | waiting | calling => exact .inl ⟨rfl, .inl h.1⟩
  | woken ret =>
      cases ret with
      | zero | EINVAL => exact h.elim
      | ETIMEDOUT => exact .inl ⟨rfl, .inl h.1⟩
  | testing ret =>
      cases ret with
      | zero | EINVAL => exact h.elim
      | ETIMEDOUT => exact .inl ⟨rfl, .inr h.1⟩
  | leaving ret | unlocking ret =>
      cases ret with
      | zero | EINVAL => exact h.elim
      | ETIMEDOUT => exact .inr ⟨rfl, h.1⟩
  | ended ret =>
      cases ret with
      | zero | EINVAL => exact h.elim
      | ETIMEDOUT => exact .inr ⟨rfl, h⟩

theorem Cycles.bounds (h : Cycles d rep s) :
    s.m_timer.m_arr_index ≤ d.arr.length ∧ (rep = false → s.expiries ≤ d.arr.length) := by
  rcases h.place.rounds with ⟨-, hin | ⟨k, hk, hin⟩⟩ | ⟨-, -, hk, hi⟩
  · exact ⟨Nat.le_of_lt hin.index_lt, fun hrep => Nat.le_of_lt (hin.2 hrep)⟩
  · exact ⟨Nat.le_of_lt hin.index_lt, fun hrep => hk ▸ hin.2 hrep⟩
  · exact ⟨Nat.le_of_eq hi, fun _ => Nat.le_of_eq hk⟩

theorem Cycles.through (h : Cycles d rep s) (hleft : (s.m_timer.pc 0).left = true) :
    Through d rep s.expiries s.m_timer.m_arr_index := by
  rcases h.place.rounds with ⟨hin, -⟩ | ⟨-, hthrough⟩
  · rw [hleft] at hin
    cases hin
  · exact hthrough

theorem enabled (l : ArrayLabel) (h : ∃ u, s.m_timer.threadStep l.label = some u) :
    ∃ l t, arraySwitch.step s l = some t := by
  obtain ⟨u, hu⟩ := h
  exact ⟨l, _, congrArg (Option.map _) hu⟩

/-- The thread is never stuck. -/
theorem Cycles.goesOn (h : Cycles d rep s) :
    (∃ ret, s.m_timer.pc 0 = .ended ret) ∨ ∃ l t, arraySwitch.step s l = some t := by
  have hplace := h.place
  cases hpc : s.m_timer.pc 0 with
  | absent =>
      rw [hpc] at hplace
      exact hplace.elim
  | created =>
      rw [hpc] at hplace
      exact .inr (enabled .lock (by simp [ArrayLabel.label, Timer.threadStep, hpc, hplace.2]))
  | locked =>
      rw [hpc] at hplace
      have hvalid := (h.waitTime hplace.1 0).2
      exact .inr (enabled (.wait 0)
        (by simp [ArrayLabel.label, Timer.threadStep, hpc, hvalid]))
  | waiting =>
      exact .inr (enabled .timeout (by simp [ArrayLabel.label, Timer.threadStep, hpc]))
  | woken ret =>
      rw [hpc] at hplace
      cases ret with
      | zero | EINVAL => exact hplace.elim
      | ETIMEDOUT =>
          exact .inr (enabled .reacquire
            (by simp [ArrayLabel.label, Timer.threadStep, hpc, hplace.2]))
  | calling =>
      exact .inr (enabled .ret (by simp [ArrayLabel.label, Timer.threadStep, hpc]))
  | testing ret =>
      exact .inr (enabled .test (by simp [ArrayLabel.label, Timer.threadStep, hpc]))
  | leaving ret =>
      exact .inr (enabled .clear (by simp [ArrayLabel.label, Timer.threadStep, hpc]))
  | unlocking ret =>
      exact .inr (enabled .unlock (by simp [ArrayLabel.label, Timer.threadStep, hpc]))
  | ended ret => exact .inl ⟨ret, rfl⟩

/-- The last bit of the index is that of the number of waits, as long as the index does not begin
again at an odd number. -/
theorem levelAfter_eq {n k : Nat} (h : n % 2 = 0 ∨ k ≤ n) :
    levelAfter n k = decide (k % 2 = 0) := by
  cases k with
  | zero => rfl
  | succ k =>
      have hparity : k % n % 2 = k % 2 := by
        rcases h with heven | hfew
        · exact Nat.mod_mod_of_dvd k (Nat.dvd_of_mod_eq_zero heven)
        · rw [Nat.mod_eq_of_lt hfew]
      rw [levelAfter, hparity, decide_eq_decide]
      omega

theorem Cycles.alternates (h : Cycles d rep s) (hd : rep = false ∨ d.arr.length % 2 = 0) :
    Alternates d rep s where
  level := by
    rw [h.level, levelAfter_eq]
    exact hd.symm.imp_right h.bounds.2
  lasts hpc := by
    have hplace := h.place
    rw [hpc] at hplace
    obtain ⟨hin, -, now, hlatest⟩ := hplace
    refine ⟨now, _, hlatest, ?_, ?_⟩
    · rw [← (h.waitTime hin now).1]
      exact (h.waitTime hin now).2
    · rw [Timer.deadlineMillis_micros, hin.1]
  more hpc := by
    have hplace := h.place
    rw [hpc] at hplace
    exact hplace.1.2
  left hleft := ⟨(h.through hleft).1, (h.through hleft).2.1⟩
  index := h.bounds.1
  goesOn := h.goesOn

/-- One round of a pattern that repeats. -/
theorem Cycles.round (h : Cycles d true s) (hpc : s.m_timer.pc 0 = .locked) :
    ∃ labels t, arraySwitch.run s labels = some t ∧ t.m_timer.pc 0 = .locked ∧
      t.expiries = s.expiries + 1 := by
  have hplace := h.place
  rw [hpc] at hplace
  have hvalid := (h.waitTime hplace.1 0).2
  obtain ⟨r, hr, hrpc, hrk⟩ : ∃ r, arraySwitch.run s [.wait 0, .timeout, .reacquire, .ret] =
      some r ∧ r.m_timer.pc 0 = .testing .ETIMEDOUT ∧ r.expiries = s.expiries + 1 := by
    simp [arraySwitch, step, ArrayLabel.label, Timer.threadStep, hpc, hvalid, Timer.at_]
  have hcycles := cycles_run h hr
  have hrplace := hcycles.place
  rw [hrpc] at hrplace
  obtain ⟨⟨k, -, hin⟩, -⟩ := hrplace
  rcases hcycles.next hin with ⟨i, htest, -⟩ | ⟨-, hthrough⟩
  · obtain ⟨t, ht, htpc, htk⟩ : ∃ t, arraySwitch.run r [.test] = some t ∧
        t.m_timer.pc 0 = .locked ∧ t.expiries = r.expiries := by
      simp [arraySwitch, step, ArrayLabel.label, Timer.threadStep, hrpc, htest, Timer.at_]
    refine ⟨[.wait 0, .timeout, .reacquire, .ret] ++ [.test], t, ?_, htpc, htk.trans hrk⟩
    rw [Machine.run_append, hr, Option.bind_some, ht]
  · cases hthrough.1

/-- A pattern that repeats gets to any number of expiries. -/
theorem exists_rounds (d : Durations) (output : Bool) (memory : Nat → Int) (behind : List Int)
    (k : Nat) : ∃ labels t,
      arraySwitch.run (on output memory (d.arr ++ 0 :: behind) true) labels = some t ∧
        t.m_timer.pc 0 = .locked ∧ t.expiries = k := by
  induction k with
  | zero => exact ⟨[.lock], _, rfl, rfl, rfl⟩
  | succ k ih =>
      obtain ⟨labels, t, hr, hpc, hk⟩ := ih
      obtain ⟨more, u, hr', hpc', hk'⟩ :=
        (cycles_run (cycles_on d true output memory behind) hr).round hpc
      refine ⟨labels ++ more, u, ?_, hpc', by rw [hk', hk]⟩
      rw [Machine.run_append, hr, Option.bind_some, hr']

/-- The output alternates in every run precisely when the pattern does not repeat, or has an even
number of durations. -/
theorem alternates_iff (d : Durations) (rep output : Bool) (memory : Nat → Int)
    (behind : List Int) :
    (∀ labels, arraySwitch.AllStates (Alternates d rep)
        (on output memory (d.arr ++ 0 :: behind) rep) labels) ↔
      rep = false ∨ d.arr.length % 2 = 0 := by
  have hstart := cycles_on d rep output memory behind
  constructor
  · intro h
    by_contra hnot
    obtain ⟨hrep, hodd⟩ := not_or.mp hnot
    obtain rfl : rep = true := by simpa using hrep
    -- the first expiry after the index has begun again writes what the one before wrote
    obtain ⟨labels, t, hr, -, hk⟩ := exists_rounds d output memory behind (d.arr.length + 1)
    have hlevel := (h labels).last hr |>.level
    rw [(cycles_run hstart hr).level, hk, levelAfter, Nat.mod_self] at hlevel
    simp only [Nat.zero_mod] at hlevel
    have heven := hlevel.symm
    simp only [decide_eq_decide] at heven
    omega
  · intro hd labels
    exact Machine.allStates_of_preserved (fun _ hs => hs.alternates hd) cycles_step hstart labels

end Rounds

/-- A single second, repeated, sets the output once and then only clears it. -/
def everySecond : Durations := ⟨[1000], by decide, by decide, by decide⟩

theorem every_second_stays_off :
    ¬ ∀ labels, arraySwitch.AllStates (Alternates everySecond true)
      (on false (fun _ => 0) [1000, 0] true) labels := by
  intro h
  have hlevel := (h [.lock, .wait 0, .timeout, .reacquire, .ret, .test, .wait 1000000, .timeout,
    .reacquire, .ret]).last rfl |>.level
  exact absurd hlevel (by decide)

end ArraySwitch

end Acu.Hardware
