import Acu.Tools.TimerThread

/-!
# Clients of a timer

`SwitchGpio` and `CameraStill` stop a running timer while they hold their own
mutex, and the callback of the timer, which runs with the timer's mutex held,
takes the client's. A switch makes a timer for every pulse and deletes one when a
pulse ends; a camera starts its only timer after every picture. A timer object
that was deleted is taken to keep its contents.
-/

namespace Acu.Hardware

open Acu.Core Tools

inductive ClientKind where
  | switchGpio
  | cameraStill
  deriving DecidableEq, Repr

/-- Who holds the mutex of the client: a caller, or thread `i` of timer `x` in its callback. -/
inductive Owner where
  | caller (c : Nat)
  | thread (x i : Nat)
  deriving DecidableEq, Repr

/-- A caller of `off` or `takePicture`: with the mutex, before the test of `IsActive`, before the
lock in `stop` of timer `x`, and behind it. -/
inductive CallerPc where
  | idle
  | testing
  | stopping (x : Nat)
  | done
  deriving DecidableEq, Repr

/-- A deleted timer, the timer in whose callback it was deleted, and whether every thread of the
deleted one had ended. -/
structure Deletion where
  timer : Nat
  trigger : Nat
  ended : Bool
  deriving DecidableEq, Repr

/-- Timers go by the number of their creation. The deletions are history. -/
structure TimerClient where
  kind : ClientKind
  timers : Nat → Timer
  created : Nat
  m_timer : Option Nat
  mtx : Option Owner
  caller : Nat → CallerPc
  deletions : List Deletion

inductive ClientLabel where
  | on (t : Int)
  | onArray (arr : List Int) (rep : Bool) (memory : Nat → Int)
  | endOfStream (delay : Int)
  | enter (c : Nat)
  | check (c : Nat)
  | stop (c : Nat) (signaled : Option Nat)
  | leave (c : Nat)
  | thread (x : Nat) (l : ThreadLabel)
  | cbLock (x i : Nat)
  | cbReturn (x i : Nat)

namespace TimerClient

def setTimer (s : TimerClient) (x : Nat) (u : Timer) : TimerClient :=
  { s with timers := Function.update s.timers x u }

def at_ (s : TimerClient) (c : Nat) (pc : CallerPc) : TimerClient :=
  { s with caller := Function.update s.caller c pc }

/-- `m_timer = new Timer(...)`, started. -/
def newTimer (s : TimerClient) (u : Timer) : TimerClient :=
  { s.setTimer s.created u with m_timer := some s.created, created := s.created + 1 }

/-- The callback of the timer takes the mutex of the client: `cbOnTimer` and `cbTimer` do,
`cbOnArrayTimer` does not. -/
def Locks (s : TimerClient) (x : Nat) : Prop :=
  s.kind = .cameraStill ∨ (s.timers x).array = false

instance (s : TimerClient) (x : Nat) : Decidable (s.Locks x) :=
  inferInstanceAs (Decidable (_ ∨ _))

/-- Every thread of the timer has made its last access to the object. -/
def threadsEnded (u : Timer) : Bool :=
  (List.range u.threads).all fun i =>
    match u.pc i with
    | .ended _ => true
    | _ => false

/-- `delete my->m_timer; my->m_timer = NULL` in the callback of timer `x`. -/
def deleteTimer (s : TimerClient) (x : Nat) : TimerClient :=
  match s.kind, s.m_timer with
  | .switchGpio, some y =>
      { s with
        m_timer := none
        deletions := s.deletions ++ [⟨y, x, threadsEnded (s.timers y)⟩] }
  | _, _ => s

def step (s : TimerClient) : ClientLabel → Option TimerClient
  | .on t =>
      match s.kind, s.mtx with
      | .switchGpio, none => some (s.newTimer (Timer.fresh.start (t.tdiv 1000) (t.tmod 1000) false))
      | _, _ => none
  | .onArray arr rep memory =>
      match s.kind, s.mtx with
      | .switchGpio, none =>
          some (s.newTimer ((Timer.new true 0 0 false memory 0).startArray arr rep))
      | _, _ => none
  | .endOfStream delay =>
      match s.kind, s.mtx, s.m_timer with
      | .cameraStill, none, some x => some (s.setTimer x ((s.timers x).start delay 0 false))
      | _, _, _ => none
  | .enter c =>
      match s.caller c, s.mtx with
      | .idle, none => some { s.at_ c .testing with mtx := some (.caller c) }
      | _, _ => none
  | .check c =>
      match s.caller c, s.m_timer with
      | .testing, some x => some (s.at_ c (if (s.timers x).m_active then .stopping x else .done))
      | .testing, none => some (s.at_ c .done)
      | _, _ => none
  | .stop c signaled =>
      match s.caller c with
      | .stopping x => ((s.timers x).stop signaled).map fun u => (s.setTimer x u).at_ c .done
      | _ => none
  | .leave c =>
      match s.caller c with
      | .done => some { s.at_ c .idle with mtx := none }
      | _ => none
  | .thread x l =>
      if l.isRet = true ∧ s.Locks x then none
      else ((s.timers x).threadStep l).map (s.setTimer x)
  | .cbLock x i =>
      if (s.timers x).pc i = .calling ∧ s.Locks x ∧ s.mtx = none then
        some { s with mtx := some (.thread x i) }
      else none
  | .cbReturn x i =>
      if s.mtx = some (.thread x i) then
        ((s.timers x).threadStep (.ret i)).map fun u =>
          { (s.deleteTimer x).setTimer x u with mtx := none }
      else none

/-- A switch without a timer. -/
def switchGpio : TimerClient where
  kind := .switchGpio
  timers := fun _ => Timer.fresh
  created := 0
  m_timer := none
  mtx := none
  caller := fun _ => .idle
  deletions := []

/-- A camera with its timer, not yet started. -/
def cameraStill : TimerClient where
  kind := .cameraStill
  timers := fun _ => Timer.fresh
  created := 1
  m_timer := some 0
  mtx := none
  caller := fun _ => .idle
  deletions := []

def ofKind : ClientKind → TimerClient
  | .switchGpio => switchGpio
  | .cameraStill => cameraStill

end TimerClient

def timerClient : Machine TimerClient ClientLabel where
  step := TimerClient.step

namespace TimerClient

/-! ## What a step can do -/

section Cases

variable {s t : TimerClient} {c x i : Nat}

theorem on_cases {v : Int} (h : timerClient.step s (.on v) = some t) :
    s.mtx = none ∧ t = s.newTimer (Timer.fresh.start (v.tdiv 1000) (v.tmod 1000) false) := by
  simp only [timerClient, step] at h
  split at h
  next hm => exact ⟨hm, (Option.some.inj h).symm⟩
  · cases h

theorem onArray_cases {arr : List Int} {rep : Bool} {memory : Nat → Int}
    (h : timerClient.step s (.onArray arr rep memory) = some t) :
    s.mtx = none ∧ t = s.newTimer ((Timer.new true 0 0 false memory 0).startArray arr rep) := by
  simp only [timerClient, step] at h
  split at h
  next hm => exact ⟨hm, (Option.some.inj h).symm⟩
  · cases h

theorem endOfStream_cases {delay : Int} (h : timerClient.step s (.endOfStream delay) = some t) :
    s.kind = .cameraStill ∧ s.mtx = none ∧ ∃ x, s.m_timer = some x ∧
      t = s.setTimer x ((s.timers x).start delay 0 false) := by
  simp only [timerClient, step] at h
  split at h
  next x hk hm hx => exact ⟨hk, hm, x, hx, (Option.some.inj h).symm⟩
  · cases h

theorem enter_cases (h : timerClient.step s (.enter c) = some t) :
    s.mtx = none ∧ t = { s.at_ c .testing with mtx := some (.caller c) } := by
  simp only [timerClient, step] at h
  split at h
  next hm => exact ⟨hm, (Option.some.inj h).symm⟩
  · cases h

theorem check_cases (h : timerClient.step s (.check c) = some t) :
    s.caller c = .testing ∧
      ((∃ x, s.m_timer = some x ∧ (s.timers x).m_active = true ∧ t = s.at_ c (.stopping x)) ∨
        ((∀ x, s.m_timer = some x → (s.timers x).m_active = false) ∧ t = s.at_ c .done)) := by
  simp only [timerClient, step] at h
  split at h
  next x hc hx =>
    refine ⟨hc, ?_⟩
    cases hact : (s.timers x).m_active with
    | true =>
        rw [hact, if_pos rfl] at h
        exact .inl ⟨x, hx, hact, (Option.some.inj h).symm⟩
    | false =>
        rw [hact, if_neg Bool.false_ne_true] at h
        refine .inr ⟨fun y hy => ?_, (Option.some.inj h).symm⟩
        rw [hx, Option.some.injEq] at hy
        exact hy ▸ hact
  next hc hx =>
    refine ⟨hc, .inr ⟨fun y hy => ?_, (Option.some.inj h).symm⟩⟩
    rw [hx] at hy
    cases hy
  · cases h

theorem stop_cases {signaled : Option Nat} (h : timerClient.step s (.stop c signaled) = some t) :
    ∃ x u, s.caller c = .stopping x ∧ (s.timers x).stop signaled = some u ∧
      t = (s.setTimer x u).at_ c .done := by
  simp only [timerClient, step] at h
  split at h
  next x hc =>
    obtain ⟨u, hu, ht⟩ := Option.map_eq_some_iff.mp h
    exact ⟨x, u, hc, hu, ht.symm⟩
  · cases h

theorem leave_cases (h : timerClient.step s (.leave c) = some t) :
    s.caller c = .done ∧ t = { s.at_ c .idle with mtx := none } := by
  simp only [timerClient, step] at h
  split at h
  next hc => exact ⟨hc, (Option.some.inj h).symm⟩
  · cases h

theorem thread_cases {l : ThreadLabel} (h : timerClient.step s (.thread x l) = some t) :
    ∃ u, (s.timers x).threadStep l = some u ∧ t = s.setTimer x u := by
  simp only [timerClient, step] at h
  split at h
  · cases h
  · obtain ⟨u, hu, ht⟩ := Option.map_eq_some_iff.mp h
    exact ⟨u, hu, ht.symm⟩

theorem cbLock_cases (h : timerClient.step s (.cbLock x i) = some t) :
    (s.timers x).pc i = .calling ∧ s.mtx = none ∧ t = { s with mtx := some (.thread x i) } := by
  simp only [timerClient, step] at h
  split at h
  next hg => exact ⟨hg.1, hg.2.2, (Option.some.inj h).symm⟩
  · cases h

theorem cbReturn_cases (h : timerClient.step s (.cbReturn x i) = some t) :
    ∃ u, s.mtx = some (.thread x i) ∧ (s.timers x).threadStep (.ret i) = some u ∧
      t = { (s.deleteTimer x).setTimer x u with mtx := none } := by
  simp only [timerClient, step] at h
  split at h
  next hm =>
    obtain ⟨u, hu, ht⟩ := Option.map_eq_some_iff.mp h
    exact ⟨u, hm, hu, ht.symm⟩
  · cases h

@[simp] theorem setTimer_timers (u : Timer) :
    (s.setTimer x u).timers = Function.update s.timers x u := rfl

theorem deleteTimer_timers (s : TimerClient) (x : Nat) : (s.deleteTimer x).timers = s.timers := by
  unfold deleteTimer
  split <;> rfl

theorem deleteTimer_caller (s : TimerClient) (x : Nat) : (s.deleteTimer x).caller = s.caller := by
  unfold deleteTimer
  split <;> rfl

end Cases

/-! ## Two threads and two mutexes -/

/-- A caller holds the mutex of the client and waits for that of timer `x`, whose thread holds it
and waits for the client's. -/
def Deadlocked (s : TimerClient) : Prop :=
  ∃ c x i, s.caller c = .stopping x ∧ s.mtx = some (.caller c) ∧
    (s.timers x).mtx = some i ∧ (s.timers x).pc i = .calling ∧ s.Locks x

/-- No caller finds a timer active whose thread is in the callback, and no thread whose time has
come takes the mutex of its timer once a caller is about to stop it. -/
def StopsApart (s : TimerClient) : ClientLabel → Prop
  | .check _ => ∀ x i, s.m_timer = some x → (s.timers x).m_active = true →
      (s.timers x).mtx = some i → (s.timers x).pc i = .calling → ¬ s.Locks x
  | .thread x (.reacquire i) => (s.timers x).pc i = .woken .ETIMEDOUT → s.Locks x →
      ∀ c, s.caller c ≠ .stopping x
  | _ => True

/-- Each mutex is held by the one who is where it is held, and there is no deadlock. -/
structure Untangled (s : TimerClient) : Prop where
  callers : ∀ c, s.caller c ≠ .idle → s.mtx = some (.caller c)
  timers : ∀ x, (s.timers x).Exclusive
  free : ¬ s.Deadlocked

section Steps

variable {s t : TimerClient}

theorem Untangled.idle (h : Untangled s) (hm : s.mtx = none) (c : Nat) : s.caller c = .idle := by
  by_contra hc
  have hheld := h.callers c hc
  rw [hm] at hheld
  cases hheld

/-- With every caller idle there is no deadlock. -/
theorem not_deadlocked_of_idle (h : ∀ c, s.caller c = .idle) : ¬ s.Deadlocked := by
  intro h
  rcases h with ⟨c, x, i, hc, -⟩
  rw [h c] at hc
  cases hc

/-- Two callers are not both under way. -/
theorem Untangled.one (h : Untangled s) {c c' : Nat} (hc : s.caller c ≠ .idle)
    (hc' : s.caller c' ≠ .idle) : c' = c := by
  have hsame := (h.callers c hc).symm.trans (h.callers c' hc')
  exact (Owner.caller.inj (Option.some.inj hsame)).symm

/-- One timer changes, the callers do not, and no one holds the mutex of the client. -/
theorem Untangled.replace (h : Untangled s) {x : Nat} {u : Timer} (hu : u.Exclusive)
    (hm : s.mtx = none) (htimers : t.timers = Function.update s.timers x u)
    (hcaller : t.caller = s.caller) : Untangled t := by
  have hidle : ∀ c, t.caller c = .idle := by
    intro c
    rw [hcaller]
    exact h.idle hm c
  refine ⟨fun c hc => absurd (hidle c) hc, fun y => ?_, not_deadlocked_of_idle hidle⟩
  by_cases hy : y = x
  · rw [htimers, hy, Function.update_self]
    exact hu
  · rw [htimers, Function.update_of_ne hy]
    exact h.timers y

/-- The caller `c` moves on, with the mutex it holds. -/
theorem Untangled.move (h : Untangled s) {c : Nat} {pc : CallerPc} (hc : s.caller c ≠ .idle)
    (hpc : t.caller = Function.update s.caller c pc) (hm : t.mtx = s.mtx)
    (htimers : ∀ x, (t.timers x).Exclusive)
    (hfree : ∀ x i, pc = .stopping x → (t.timers x).mtx = some i → (t.timers x).pc i = .calling →
      ¬ t.Locks x) : Untangled t := by
  have hother {c' : Nat} (hne : c' ≠ c) : t.caller c' = .idle := by
    rw [hpc, Function.update_of_ne hne]
    by_contra hc'
    exact hne (h.one hc hc')
  refine ⟨fun c' hc' => ?_, htimers, ?_⟩
  · have heq : c' = c := by
      by_contra hne
      exact hc' (hother hne)
    rw [heq, hm]
    exact h.callers c hc
  · intro h
    rcases h with ⟨c', x, i, hstop, -, hmx, hcall, hlocks⟩
    have heq : c' = c := by
      by_contra hne
      rw [hother hne] at hstop
      cases hstop
    rw [heq, hpc, Function.update_self] at hstop
    exact hfree x i hstop hmx hcall hlocks

/-- One step of a thread cannot close the circle unless it takes the mutex of its timer. -/
theorem untangled_thread {x : Nat} {l : ThreadLabel} {u : Timer} (h : Untangled s)
    (hg : s.StopsApart (.thread x l)) (hu : (s.timers x).threadStep l = some u) :
    Untangled (s.setTimer x u) := by
  have hexcl := Timer.exclusive_thread (h.timers x) hu
  obtain ⟨pc, hthere, hpc, -, harray, hcalling⟩ := Timer.thread_cases hu
  refine ⟨h.callers, fun y => ?_, ?_⟩
  · by_cases hy : y = x
    · rw [setTimer_timers, hy, Function.update_self]
      exact hexcl
    · rw [setTimer_timers, Function.update_of_ne hy]
      exact h.timers y
  · intro h
    rcases h with ⟨c, y, i, hstop, hm, hmx, hcall, hlocks⟩
    by_cases hy : y = x
    · subst hy
      simp only [setTimer_timers, Function.update_self] at hmx hcall
      have hlocks' : s.Locks y := by
        simpa [Locks, setTimer, harray] using hlocks
      by_cases hi : i = l.index
      · rw [hpc, hi, Function.update_self] at hcall
        obtain ⟨hl, hwoken⟩ := hcalling hcall
        rw [hl] at hg
        exact hg hwoken hlocks' c hstop
      · rw [hpc, Function.update_of_ne hi] at hcall
        have hold : (s.timers y).mtx = some i := h.timers y i (by rw [hcall]; rfl)
        exact h.free ⟨c, y, i, hstop, hm, hold, hcall, hlocks'⟩
    · simp only [setTimer_timers, Function.update_of_ne hy] at hmx hcall
      have hlocks' : s.Locks y := by
        simpa [Locks, setTimer, Function.update_of_ne hy] using hlocks
      exact h.free ⟨c, y, i, hstop, hm, hmx, hcall, hlocks'⟩

theorem exclusive_new (array : Bool) (m_arr_msec : Nat → Int) :
    (Timer.new array 0 0 false m_arr_msec 0).Exclusive :=
  fun _ h => (nomatch h)

theorem untangled_step (s : TimerClient) (l : ClientLabel) (t : TimerClient) (h : Untangled s)
    (hg : s.StopsApart l) (hs : timerClient.step s l = some t) : Untangled t := by
  cases l with
  | on v =>
      obtain ⟨hm, rfl⟩ := on_cases hs
      exact h.replace (Timer.exclusive_start (exclusive_new false _) _ _ _) hm rfl rfl
  | onArray arr rep memory =>
      obtain ⟨hm, rfl⟩ := onArray_cases hs
      exact h.replace (Timer.exclusive_startArray (exclusive_new true memory) arr rep) hm rfl rfl
  | endOfStream delay =>
      obtain ⟨-, hm, x, -, rfl⟩ := endOfStream_cases hs
      exact h.replace (Timer.exclusive_start (h.timers x) _ _ _) hm rfl rfl
  | enter c =>
      obtain ⟨hm, rfl⟩ := enter_cases hs
      have hidle := h.idle hm
      refine ⟨fun c' hc' => ?_, h.timers, ?_⟩
      · change Function.update s.caller c _ c' ≠ .idle at hc'
        by_cases heq : c' = c
        · rw [heq]
        · rw [Function.update_of_ne heq] at hc'
          exact absurd (hidle c') hc'
      · intro h
        rcases h with ⟨c', x, i, hstop, -⟩
        change Function.update s.caller c _ c' = .stopping x at hstop
        by_cases heq : c' = c
        · rw [heq, Function.update_self] at hstop
          cases hstop
        · rw [Function.update_of_ne heq, hidle c'] at hstop
          cases hstop
  | check c =>
      obtain ⟨hc, ⟨x, hx, hact, rfl⟩ | ⟨-, rfl⟩⟩ := check_cases hs
      · refine h.move (c := c) (by simp [hc]) rfl rfl h.timers ?_
        intro y i hstop hmx hcall
        cases hstop
        exact hg x i hx hact hmx hcall
      · exact h.move (c := c) (by simp [hc]) rfl rfl h.timers fun _ _ hstop => (nomatch hstop)
  | stop c signaled =>
      obtain ⟨x, u, hc, hu, rfl⟩ := stop_cases hs
      refine h.move (c := c) (by simp [hc]) rfl rfl (fun y => ?_) fun _ _ hstop => (nomatch hstop)
      change (Function.update s.timers x u y).Exclusive
      by_cases hy : y = x
      · rw [hy, Function.update_self]
        exact Timer.exclusive_stop (h.timers x) hu
      · rw [Function.update_of_ne hy]
        exact h.timers y
  | leave c =>
      obtain ⟨hc, rfl⟩ := leave_cases hs
      have hidle : ∀ c', Function.update s.caller c .idle c' = .idle := by
        intro c'
        by_cases heq : c' = c
        · rw [heq, Function.update_self]
        · rw [Function.update_of_ne heq]
          by_contra hc'
          exact heq (h.one (by simp [hc]) hc')
      exact ⟨fun c' hc' => absurd (hidle c') hc', h.timers, not_deadlocked_of_idle hidle⟩
  | thread x l =>
      obtain ⟨u, hu, rfl⟩ := thread_cases hs
      exact untangled_thread h hg hu
  | cbLock x i =>
      obtain ⟨-, hm, rfl⟩ := cbLock_cases hs
      have hidle := h.idle hm
      exact ⟨fun c hc => absurd (hidle c) hc, h.timers, not_deadlocked_of_idle hidle⟩
  | cbReturn x i =>
      obtain ⟨u, hm, hu, rfl⟩ := cbReturn_cases hs
      have hidle : ∀ c, s.caller c = .idle := by
        intro c
        by_contra hc
        cases hm.symm.trans (h.callers c hc)
      have hidle' : ∀ c, ((s.deleteTimer x).setTimer x u).caller c = .idle := by
        intro c
        change (s.deleteTimer x).caller c = .idle
        rw [deleteTimer_caller]
        exact hidle c
      refine ⟨fun c hc => absurd (hidle' c) hc, fun y => ?_, not_deadlocked_of_idle hidle'⟩
      change (Function.update (s.deleteTimer x).timers x u y).Exclusive
      by_cases hy : y = x
      · rw [hy, Function.update_self]
        exact Timer.exclusive_thread (h.timers x) hu
      · rw [Function.update_of_ne hy, deleteTimer_timers]
        exact h.timers y

end Steps

/-- A step that is not apart closes the circle. -/
theorem deadlocked_of_not_apart (s : TimerClient) (l : ClientLabel) (t : TimerClient)
    (h : Untangled s) (hg : ¬ s.StopsApart l) (hs : timerClient.step s l = some t) :
    ¬ ¬ t.Deadlocked := by
  rw [not_not]
  cases l with
  | check c =>
      simp only [StopsApart, not_forall, not_not] at hg
      rcases hg with ⟨x, i, hx, hact, hmx, hcall, hlocks⟩
      obtain ⟨hc, ⟨y, hy, -, rfl⟩ | ⟨hno, -⟩⟩ := check_cases hs
      · obtain rfl : x = y := Option.some.inj (hx.symm.trans hy)
        have hheld := h.callers c (by simp [hc])
        exact ⟨c, x, i, Function.update_self .., hheld, hmx, hcall, hlocks⟩
      · rw [hno x hx] at hact
        cases hact
  | thread x l =>
      obtain ⟨u, hu, rfl⟩ := thread_cases hs
      cases l with
      | reacquire i =>
          simp only [StopsApart, not_forall, not_not] at hg
          rcases hg with ⟨hwoken, hlocks, c, hstop⟩
          obtain ⟨-, ⟨hpc, -⟩ | ⟨-, rfl⟩⟩ := Timer.reacquire_cases hu
          · rw [hwoken] at hpc
            cases hpc
          · have hheld := h.callers c (by simp [hstop])
            refine ⟨c, x, i, hstop, hheld, ?_, ?_, ?_⟩
            · rw [setTimer_timers, Function.update_self]
            · rw [setTimer_timers, Function.update_self]
              exact Function.update_self ..
            · simpa [Locks, setTimer, Timer.at_] using hlocks
      | _ => exact absurd trivial hg
  | _ => exact absurd trivial hg

/-- A client whose timers are new and whose callers are idle. -/
theorem untangled_start (s : TimerClient) (hcaller : ∀ c, s.caller c = .idle)
    (htimers : ∀ x, s.timers x = Timer.fresh) : Untangled s where
  callers c hc := absurd (hcaller c) hc
  timers x := by
    rw [htimers x]
    exact exclusive_new false _
  free := not_deadlocked_of_idle hcaller

/-- A client of either kind is never deadlocked precisely in the runs in which every stop is
apart from the callback of the timer it stops. -/
theorem deadlock_free_iff_stopsApart (kind : ClientKind) (labels : List ClientLabel) :
    timerClient.AllStates (fun s => ¬ s.Deadlocked) (ofKind kind) labels ↔
      timerClient.AllSteps StopsApart (ofKind kind) labels := by
  have h0 : Untangled (ofKind kind) := by
    cases kind with
    | switchGpio => exact untangled_start _ (fun _ => rfl) fun _ => rfl
    | cameraStill => exact untangled_start _ (fun _ => rfl) fun _ => rfl
  exact Machine.allStates_iff_allSteps (fun _ h => h.free) untangled_step
    deadlocked_of_not_apart h0 labels

/-- The time of a pulse comes while `off` is between its test and the lock in `stop`; and the
same of a picture that is taken when the camera was about to be given back. -/
theorem off_meets_expiry :
    ¬ timerClient.AllStates (fun s => ¬ s.Deadlocked) switchGpio
        [.on 500, .thread 0 (.lock 0), .thread 0 (.wait 0 0), .thread 0 (.timeout 0), .enter 0,
          .check 0, .thread 0 (.reacquire 0)] ∧
      ¬ timerClient.AllStates (fun s => ¬ s.Deadlocked) cameraStill
        [.endOfStream 5, .thread 0 (.lock 0), .thread 0 (.wait 0 0), .thread 0 (.timeout 0),
          .thread 0 (.reacquire 0), .enter 0, .check 0] := by
  constructor
  · intro h
    exact h.last rfl ⟨0, 0, 0, rfl, rfl, rfl, rfl, .inr rfl⟩
  · intro h
    exact h.last rfl ⟨0, 0, 0, rfl, rfl, rfl, rfl, .inl rfl⟩

/-! ## Deletions -/

/-- A timer is deleted at most once, after its threads have ended, and by its own expiry. -/
structure DeletesOwn (s : TimerClient) : Prop where
  once : (s.deletions.map Deletion.timer).Nodup
  ended : ∀ d ∈ s.deletions, d.ended = true
  own : ∀ d ∈ s.deletions, d.timer = d.trigger

/-- The callback of a pulse is not carried out. -/
def NoPulseEnds (_ : TimerClient) : ClientLabel → Prop
  | .cbReturn _ _ => False
  | _ => True

/-- Before the first pulse has ended, a switch has a timer as soon as there is a thread. -/
structure Undeleted (s : TimerClient) : Prop where
  kind : s.kind = .switchGpio
  deletions : s.deletions = []
  known : s.m_timer = none → ∀ x i, (s.timers x).pc i = .absent
  born : ∀ x, (s.timers x).Born

section Deletions

variable {s t : TimerClient}

theorem Undeleted.deletesOwn (h : Undeleted s) : DeletesOwn s where
  once := by simp [h.deletions]
  ended := by simp [h.deletions]
  own := by simp [h.deletions]

/-- A new timer, started. -/
theorem Undeleted.newTimer (h : Undeleted s) {u : Timer} (hu : u.Born) :
    Undeleted (s.newTimer u) where
  kind := h.kind
  deletions := h.deletions
  known hm := nomatch hm
  born x := by
    change (Function.update s.timers s.created u x).Born
    by_cases hx : x = s.created
    · rw [hx, Function.update_self]
      exact hu
    · rw [Function.update_of_ne hx]
      exact h.born x

/-- A timer with a thread changes. -/
theorem Undeleted.setTimer (h : Undeleted s) {x i : Nat} {u : Timer} (hu : u.Born)
    (hi : (s.timers x).pc i ≠ .absent) : Undeleted (s.setTimer x u) where
  kind := h.kind
  deletions := h.deletions
  known hm := absurd (h.known hm x i) hi
  born y := by
    rw [setTimer_timers]
    by_cases hy : y = x
    · rw [hy, Function.update_self]
      exact hu
    · rw [Function.update_of_ne hy]
      exact h.born y

theorem undeleted_stop {c x : Nat} {signaled : Option Nat} {u : Timer} (h : Undeleted s)
    (hu : (s.timers x).stop signaled = some u) : Undeleted ((s.setTimer x u).at_ c .done) := by
  have hborn := Timer.born_stop (h.born x) hu
  have hset : Undeleted (s.setTimer x u) := by
    obtain ⟨-, hsig, hu⟩ := Timer.stop_cases hu
    cases signaled with
    | some i => exact h.setTimer hborn (i := i) (by simp [hsig.2])
    | none =>
        refine ⟨h.kind, h.deletions, fun hm y i => ?_, fun y => ?_⟩
        · rw [setTimer_timers]
          by_cases hy : y = x
          · rw [hy, Function.update_self, hu]
            exact h.known hm x i
          · rw [Function.update_of_ne hy]
            exact h.known hm y i
        · rw [setTimer_timers]
          by_cases hy : y = x
          · rw [hy, Function.update_self]
            exact hborn
          · rw [Function.update_of_ne hy]
            exact h.born y
  exact ⟨hset.kind, hset.deletions, hset.known, hset.born⟩

theorem undeleted_step (s : TimerClient) (l : ClientLabel) (t : TimerClient) (h : Undeleted s)
    (hg : NoPulseEnds s l) (hs : timerClient.step s l = some t) : Undeleted t := by
  cases l with
  | on v =>
      obtain ⟨-, rfl⟩ := on_cases hs
      exact h.newTimer (Timer.born_create (s := Timer.fresh)
        (Timer.born_new false 0 0 false _ 0) rfl rfl)
  | onArray arr rep memory =>
      obtain ⟨-, rfl⟩ := onArray_cases hs
      exact h.newTimer (Timer.born_create (s := Timer.new true 0 0 false memory 0)
        (Timer.born_new true 0 0 false memory 0) rfl rfl)
  | endOfStream delay =>
      obtain ⟨hk, -⟩ := endOfStream_cases hs
      rw [h.kind] at hk
      cases hk
  | enter c =>
      obtain ⟨-, rfl⟩ := enter_cases hs
      exact ⟨h.kind, h.deletions, h.known, h.born⟩
  | check c =>
      obtain ⟨-, ⟨x, -, -, rfl⟩ | ⟨-, rfl⟩⟩ := check_cases hs
      · exact ⟨h.kind, h.deletions, h.known, h.born⟩
      · exact ⟨h.kind, h.deletions, h.known, h.born⟩
  | stop c signaled =>
      obtain ⟨x, u, -, hu, rfl⟩ := stop_cases hs
      exact undeleted_stop h hu
  | leave c =>
      obtain ⟨-, rfl⟩ := leave_cases hs
      exact ⟨h.kind, h.deletions, h.known, h.born⟩
  | thread x l =>
      obtain ⟨u, hu, rfl⟩ := thread_cases hs
      obtain ⟨pc, hthere, hpc, hthreads, -⟩ := Timer.thread_cases hu
      exact h.setTimer (Timer.born_move (h.born x) hthere hpc hthreads) hthere
  | cbLock x i =>
      obtain ⟨-, -, rfl⟩ := cbLock_cases hs
      exact ⟨h.kind, h.deletions, h.known, h.born⟩
  | cbReturn x i => exact hg.elim

/-- The first pulse that ends deletes its own timer in use, or another one. -/
theorem not_deletesOwn_of_pulse (s : TimerClient) (l : ClientLabel) (t : TimerClient)
    (h : Undeleted s) (hg : ¬ NoPulseEnds s l) (hs : timerClient.step s l = some t) :
    ¬ DeletesOwn t := by
  cases l with
  | cbReturn x i =>
      obtain ⟨u, -, hu, rfl⟩ := cbReturn_cases hs
      obtain ⟨hcall, -⟩ := Timer.ret_cases hu
      cases hm : s.m_timer with
      | none =>
          rw [h.known hm x i] at hcall
          cases hcall
      | some y =>
          have hdel : (s.deleteTimer x).deletions =
              [⟨y, x, threadsEnded (s.timers y)⟩] := by
            simp [deleteTimer, h.kind, hm, h.deletions]
          intro hown
          have hmem : (⟨y, x, threadsEnded (s.timers y)⟩ : Deletion) ∈
              (s.deleteTimer x).deletions := by simp [hdel]
          obtain rfl : y = x := hown.own _ hmem
          have hended : threadsEnded (s.timers y) = true := hown.ended _ hmem
          have hi := h.born y i (by simp [hcall])
          have hthis := List.all_eq_true.mp hended i (List.mem_range.mpr hi)
          rw [hcall] at hthis
          cases hthis
  | _ => exact absurd trivial hg

/-- The deletions of a switch are in order precisely in the runs in which no pulse ends. -/
theorem deletesOwn_iff_noPulseEnds (labels : List ClientLabel) :
    timerClient.AllStates DeletesOwn switchGpio labels ↔
      timerClient.AllSteps NoPulseEnds switchGpio labels := by
  have h0 : Undeleted switchGpio :=
    ⟨rfl, rfl, fun _ _ _ => rfl, fun _ => Timer.born_new false 0 0 false _ 0⟩
  exact Machine.allStates_iff_allSteps (fun _ h => h.deletesOwn) undeleted_step
    not_deletesOwn_of_pulse h0 labels

/-- Two pulses that overlap: the end of the first deletes the timer of the second; and a pulse
that ends alone deletes its timer under its own thread. -/
theorem pulse_deletes_timer_in_use :
    ¬ timerClient.AllStates DeletesOwn switchGpio
        [.on 500, .thread 0 (.lock 0), .thread 0 (.wait 0 0), .on 500, .thread 0 (.timeout 0),
          .thread 0 (.reacquire 0), .cbLock 0 0, .cbReturn 0 0] ∧
      ¬ timerClient.AllStates DeletesOwn switchGpio
        [.on 500, .thread 0 (.lock 0), .thread 0 (.wait 0 0), .thread 0 (.timeout 0),
          .thread 0 (.reacquire 0), .cbLock 0 0, .cbReturn 0 0] := by
  constructor
  · intro h
    have hown := (h.last rfl).own ⟨1, 0, false⟩ (by decide)
    cases hown
  · intro h
    have hended := (h.last rfl).ended ⟨0, 0, false⟩ (by decide)
    cases hended

end Deletions

end TimerClient

end Acu.Hardware
