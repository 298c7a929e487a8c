import Acu.Core.Machine
import Acu.Web.Outcomes

/-!
# A request with a callback

`processCmd` in the calling thread and `WebApi::run` in the thread it starts, over every
order of their steps. `pthread_create` has stored the thread's id when the thread starts,
and a `delete m_thread` that finds the pointer not stored yet is let pass.
-/

namespace Acu.Web

open Acu.Core

/-- The calling thread: the constructor of `Thread` up to `pthread_create`, the copy of the name,
the store of `m_thread`, the test of `m_cbfunc`, `detach` and the read of `m_status`. -/
inductive CallerPc where
  | newThread
  | name
  | store
  | test
  | detach
  | status
  | returned
  deriving DecidableEq, Repr

/-- The worker: `Thread::run`, the request, the callback, and `delete this` with the members that
the destructor deletes. -/
inductive WorkerPc where
  | waiting
  | entered
  | request
  | callback
  | deleteThis
  | deleteThread
  | deleteCmd
  | ended
  deriving DecidableEq, Repr

/-- Behind `delete this`. -/
def WorkerPc.deleted : WorkerPc → Bool
  | .deleteThread | .deleteCmd | .ended => true
  | _ => false

/-- Behind `delete m_thread`. -/
def WorkerPc.destroyed : WorkerPc → Bool
  | .deleteCmd | .ended => true
  | _ => false

theorem WorkerPc.deleted_of_destroyed {pc : WorkerPc} (h : pc.destroyed = true) :
    pc.deleted = true := by
  cases pc with
  | deleteCmd | ended => rfl
  | waiting | entered | request | callback | deleteThis | deleteThread => cases h

/-- Behind the callback. -/
def WorkerPc.called : WorkerPc → Bool
  | .waiting | .entered | .request | .callback => false
  | _ => true

/-- `m_thread` tells whether the pointer is stored. A callback is recorded with its status and
whether its result was ever set; the last two fields record what must not happen. -/
structure AsyncCall where
  caller : CallerPc
  worker : WorkerPc
  m_thread : Bool
  m_status : Option Ret
  callbacks : List (Option Ret × Bool)
  usedDeleted : Bool
  joinedItself : Bool
  deriving DecidableEq, Repr

/-- Whether `run` has set the result that it leaves with a status. -/
def Wa.resultSet (w : Wa) (m_status : Option Ret) : Bool :=
  match w.result with
  | .m_ret _ | .block _ => m_status == some .RET_SUCCESS
  | .member | .void => false

namespace AsyncCall

def constructed : AsyncCall where
  caller := .newThread
  worker := .waiting
  m_thread := false
  m_status := none
  callbacks := []
  usedDeleted := false
  joinedItself := false

/-! ## Steps -/

/-- The caller uses the object or its `Thread` on the way to `next`. -/
def use (next : CallerPc) (s : AsyncCall) : AsyncCall :=
  { s with caller := next, usedDeleted := s.usedDeleted || s.worker.deleted }

def callerStep (s : AsyncCall) : Option AsyncCall :=
  match s.caller with
  | .newThread => some { s with caller := .name, worker := .entered }
  | .name => some (s.use .store)
  | .store => some { s.use .test with m_thread := true }
  | .test => some (s.use .detach)
  | .detach => some (s.use .status)
  | .status => some (s.use .returned)
  | .returned => none

def workerStep (w : Wa) (sys : SysCalls) (d : Disk String) (s : AsyncCall) : Option AsyncCall :=
  match s.worker with
  | .waiting => none
  | .entered => some { s with worker := .request }
  | .request =>
      (w.status sys d).map fun status => { s with m_status := some status, worker := .callback }
  | .callback =>
      some { s with
        callbacks := s.callbacks ++ [(s.m_status, w.resultSet s.m_status)]
        worker := .deleteThis }
  | .deleteThis => some { s with worker := .deleteThread }
  | .deleteThread =>
      -- `~Thread` joins the thread that runs it
      some { s with joinedItself := s.joinedItself || s.m_thread, worker := .deleteCmd }
  | .deleteCmd => some { s with worker := .ended }
  | .ended => none

end AsyncCall

inductive Turn where
  | caller
  | worker
  deriving DecidableEq, Repr

def asyncCalls (w : Wa) (sys : SysCalls) (d : Disk String) : Machine AsyncCall Turn where
  step s
    | .caller => s.callerStep
    | .worker => s.workerStep w sys d

namespace AsyncCall

variable {w : Wa} {sys : SysCalls} {d : Disk String}

/-- What a request owes its caller. -/
structure Kept (w : Wa) (sys : SysCalls) (d : Disk String) (s : AsyncCall) : Prop where
  unused : s.usedDeleted = false
  unjoined : s.joinedItself = false
  callback : ∃ status, w.status sys d = some status ∧ s.callbacks = [(some status, true)]

/-- The caller has stored `m_thread`. -/
def stored (s : AsyncCall) : Bool :=
  match s.caller with
  | .newThread | .name | .store => false
  | _ => true

/-! ## Invariants -/

/-- The worker waits for the constructor; the pointer is stored in its place of the caller; behind
the destructor of `Thread` the pointer was stored before, or is stored into the deleted object. -/
structure Scheduled (s : AsyncCall) : Prop where
  waiting : s.worker = .waiting ↔ s.caller = .newThread
  pointer : s.m_thread = s.stored
  broken : s.worker.destroyed = true →
    s.joinedItself = true ∨ s.usedDeleted = true ∨ s.m_thread = false

/-- Behind the callback it is recorded, once and with the status of the request. -/
structure Called (w : Wa) (sys : SysCalls) (d : Disk String) (s : AsyncCall) : Prop where
  status : s.worker = .callback → s.m_status = w.status sys d
  callbacks : s.callbacks =
    if s.worker.called then [(w.status sys d, w.resultSet (w.status sys d))] else []

/-- What the steps of the caller do. -/
theorem callerStep_cases {s t : AsyncCall} (h : s.callerStep = some t) :
    (s.caller = .newThread ∧ t = { s with caller := .name, worker := .entered }) ∨
      (s.caller = .store ∧ t = { s.use .test with m_thread := true }) ∨
      ∃ next, s.caller ≠ .newThread ∧ next ≠ .newThread ∧ (s.use next).stored = s.stored ∧
        t = s.use next := by
  unfold callerStep at h
  cases hcaller : s.caller with
  | newThread =>
      rw [hcaller] at h
      exact .inl ⟨rfl, (Option.some.inj h).symm⟩
  | store =>
      rw [hcaller] at h
      exact .inr (.inl ⟨rfl, (Option.some.inj h).symm⟩)
  | returned =>
      rw [hcaller] at h
      cases h
  | name | test | detach | status =>
      rw [hcaller] at h
      refine .inr (.inr ⟨_, by decide, ?_, ?_, (Option.some.inj h).symm⟩)
      · decide
      · unfold stored
        rw [hcaller]
        rfl

theorem scheduled_constructed : constructed.Scheduled where
  waiting := iff_of_true rfl rfl
  pointer := rfl
  broken := by
    intro h
    cases h

theorem called_constructed : constructed.Called w sys d where
  status := by
    intro h
    cases h
  callbacks := rfl

theorem scheduled_caller {s t : AsyncCall} (hs : s.Scheduled) (h : s.callerStep = some t) :
    t.Scheduled := by
  rcases callerStep_cases h with
    ⟨hcaller, rfl⟩ | ⟨hcaller, rfl⟩ | ⟨next, hcaller, hnext, hstored, rfl⟩
  · have hpointer := hs.pointer
    unfold stored at hpointer
    rw [hcaller] at hpointer
    refine ⟨?_, hpointer, fun _ => .inr (.inr hpointer)⟩
    exact iff_of_false (by intro h; cases h) (by intro h; cases h)
  · refine ⟨iff_of_false ?_ (by intro h; cases h), rfl, ?_⟩
    · intro hwaiting
      have hnew := hs.waiting.mp hwaiting
      rw [hcaller] at hnew
      cases hnew
    · -- a destroyed object is what the pointer is stored into
      intro (hdestroyed : s.worker.destroyed = true)
      refine .inr (.inl ?_)
      show (s.usedDeleted || s.worker.deleted) = true
      rw [WorkerPc.deleted_of_destroyed hdestroyed, Bool.or_true]
  · refine ⟨iff_of_false ?_ hnext, hs.pointer.trans hstored.symm, ?_⟩
    · intro hwaiting
      exact hcaller (hs.waiting.mp hwaiting)
    · intro (hdestroyed : s.worker.destroyed = true)
      show s.joinedItself = true ∨ (s.usedDeleted || s.worker.deleted) = true ∨ s.m_thread = false
      rw [WorkerPc.deleted_of_destroyed hdestroyed, Bool.or_true]
      exact .inr (.inl rfl)

/-- The worker changes nothing that the caller has to do with, but for the destructor. -/
theorem scheduled_worker {s t : AsyncCall} (hs : s.Scheduled) (h : s.workerStep w sys d = some t) :
    t.Scheduled := by
  have hstarted : s.worker ≠ .waiting → s.caller ≠ .newThread := fun hne hnew =>
    hne (hs.waiting.mpr hnew)
  unfold workerStep at h
  cases hworker : s.worker with
  | waiting | ended =>
      rw [hworker] at h
      cases h
  | request =>
      rw [hworker] at h hstarted
      obtain ⟨status, -, rfl⟩ := Option.map_eq_some_iff.mp h
      exact ⟨iff_of_false (by intro h; cases h) (hstarted (by decide)), hs.pointer,
        (by intro h; cases h)⟩
  | deleteThread =>
      rw [hworker] at h hstarted
      obtain rfl := Option.some.inj h
      refine ⟨iff_of_false (by intro h; cases h) (hstarted (by decide)), hs.pointer, ?_⟩
      intro _
      show (s.joinedItself || s.m_thread) = true ∨ s.usedDeleted = true ∨ s.m_thread = false
      cases s.m_thread with
      | false => exact .inr (.inr rfl)
      | true => exact .inl (Bool.or_true _)
  | deleteCmd =>
      have hbroken := hs.broken
      rw [hworker] at h hstarted hbroken
      obtain rfl := Option.some.inj h
      exact ⟨iff_of_false (by intro h; cases h) (hstarted (by decide)), hs.pointer,
        fun _ => hbroken rfl⟩
  | entered | callback | deleteThis =>
      rw [hworker] at h hstarted
      obtain rfl := Option.some.inj h
      exact ⟨iff_of_false (by intro h; cases h) (hstarted (by decide)), hs.pointer,
        (by intro h; cases h)⟩

theorem called_caller {s t : AsyncCall} (hsched : s.Scheduled) (hs : s.Called w sys d)
    (h : s.callerStep = some t) : t.Called w sys d := by
  rcases callerStep_cases h with ⟨hcaller, rfl⟩ | ⟨-, rfl⟩ | ⟨_, -, -, -, rfl⟩
  · have hcallbacks := hs.callbacks
    rw [hsched.waiting.mpr hcaller] at hcallbacks
    exact ⟨(by intro h; cases h), hcallbacks⟩
  · exact ⟨hs.status, hs.callbacks⟩
  · exact ⟨hs.status, hs.callbacks⟩

theorem called_worker {s t : AsyncCall} (hs : s.Called w sys d)
    (h : s.workerStep w sys d = some t) : t.Called w sys d := by
  have hcallbacks := hs.callbacks
  unfold workerStep at h
  cases hworker : s.worker with
  | waiting | ended =>
      rw [hworker] at h
      cases h
  | request =>
      rw [hworker] at h hcallbacks
      obtain ⟨status, hstatus, rfl⟩ := Option.map_eq_some_iff.mp h
      exact ⟨fun _ => hstatus.symm, hcallbacks⟩
  | callback =>
      have hstatus := hs.status hworker
      rw [hworker] at h hcallbacks
      obtain rfl := Option.some.inj h
      refine ⟨(by intro h; cases h), ?_⟩
      show s.callbacks ++ [(s.m_status, w.resultSet s.m_status)] = _
      rw [hcallbacks, hstatus]
      rfl
  | entered | deleteThis | deleteThread | deleteCmd =>
      rw [hworker] at h hcallbacks
      obtain rfl := Option.some.inj h
      exact ⟨(by intro h; cases h), hcallbacks⟩

/-! ## Runs -/

theorem run_invariants {s : AsyncCall} {turns : List Turn}
    (h : (asyncCalls w sys d).run constructed turns = some s) :
    s.Scheduled ∧ s.Called w sys d := by
  refine Machine.run_invariant (I := fun s => s.Scheduled ∧ s.Called w sys d)
    (G := fun _ _ => True) ?_ ⟨scheduled_constructed, called_constructed⟩
    (Machine.allSteps_of_forall (fun _ _ => trivial) constructed turns) h
  intro s turn t hs _ hstep
  cases turn with
  | caller => exact ⟨scheduled_caller hs.1 hstep, called_caller hs.1 hs.2 hstep⟩
  | worker => exact ⟨scheduled_worker hs.1 hstep, called_worker hs.2 hstep⟩

/-- A worker that ends has made its callback once, with the status of the request. -/
theorem ended_callbacks {s : AsyncCall} {turns : List Turn}
    (h : (asyncCalls w sys d).run constructed turns = some s) (hended : s.worker = .ended) :
    s.callbacks = [(w.status sys d, w.resultSet (w.status sys d))] := by
  have hcallbacks := (run_invariants h).2.callbacks
  rw [hended] at hcallbacks
  exact hcallbacks

/-- Where no thread can go on, the caller has returned, and the worker has ended or its request
never comes back. -/
theorem finished_of_stuck {s : AsyncCall} (hs : s.Scheduled)
    (hstuck : ∀ turn, (asyncCalls w sys d).step s turn = none) :
    s.caller = .returned ∧ (s.worker = .ended ∨ w.status sys d = none) := by
  have hcaller : s.caller = .returned := by
    have hnone : s.callerStep = none := hstuck .caller
    unfold callerStep at hnone
    cases hcaller : s.caller with
    | returned => rfl
    | newThread | name | store | test | detach | status =>
        rw [hcaller] at hnone
        cases hnone
  refine ⟨hcaller, ?_⟩
  have hnone : s.workerStep w sys d = none := hstuck .worker
  unfold workerStep at hnone
  cases hworker : s.worker with
  | waiting =>
      have hnew := hs.waiting.mp hworker
      rw [hcaller] at hnew
      cases hnew
  | request =>
      rw [hworker] at hnone
      exact .inr (Option.map_eq_none_iff.mp hnone)
  | ended => exact .inl rfl
  | entered | callback | deleteThis | deleteThread | deleteCmd =>
      rw [hworker] at hnone
      cases hnone

/-- No run that goes as far as it can keeps what the request owes, whatever the object, the
system calls and the schedule: a worker that ends has joined itself, or the caller has used the
deleted object. -/
theorem async_never_kept (w : Wa) (sys : SysCalls) (d : Disk String) (turns : List Turn)
    (s : AsyncCall) (hrun : (asyncCalls w sys d).run constructed turns = some s)
    (hstuck : ∀ turn, (asyncCalls w sys d).step s turn = none) : ¬ s.Kept w sys d := by
  intro hkept
  obtain ⟨hsched, -⟩ := run_invariants hrun
  obtain ⟨hreturned, hend⟩ := finished_of_stuck hsched hstuck
  cases hend with
  | inl hended =>
      have hbroken := hsched.broken (by rw [hended]; rfl)
      rw [hkept.unjoined, hkept.unused, hsched.pointer, stored, hreturned] at hbroken
      rcases hbroken with h | h | h <;> cases h
  | inr hnever =>
      rcases hkept.callback with ⟨status, hstatus, -⟩
      rw [hnever] at hstatus
      cases hstatus

/-- The worker is done before the caller has stored the pointer. -/
def workerFirst : List Turn :=
  .caller :: List.replicate 6 .worker ++ List.replicate 5 .caller

theorem async_never_kept_workerFirst :
    ¬ Kept getNetInfoObject noFcntl (fun _ => none)
      ⟨.returned, .ended, true, some .RET_FCNTL_FAIL, [(some .RET_FCNTL_FAIL, false)], true,
        false⟩ :=
  async_never_kept getNetInfoObject noFcntl (fun _ => none) workerFirst _ (by decide +kernel)
    (by intro turn; cases turn <;> rfl)

/-- The caller has returned before the worker starts, and the reply is good. -/
theorem callerFirst_joins_itself :
    ∃ s, (asyncCalls getNetInfoObject netThere fun _ => none).run constructed
        (List.replicate 6 .caller ++ List.replicate 6 .worker) = some s ∧
      (∀ turn, (asyncCalls getNetInfoObject netThere fun _ => none).step s turn = none) ∧
      ¬ s.Kept getNetInfoObject netThere fun _ => none := by
  refine ⟨⟨.returned, .ended, true, some .RET_SUCCESS, [(some .RET_SUCCESS, true)], false, true⟩,
    by decide +kernel, ?_, ?_⟩
  · intro turn
    cases turn <;> rfl
  · intro hkept
    cases hkept.unjoined

end AsyncCall

end Acu.Web
