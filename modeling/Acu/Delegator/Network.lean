import Acu.Delegator.OnData
import Acu.Web.Requests

/-!
# The network display

`checkNetwork`, and what `onData` and `checkNetwork` together show of the server: the
member `m_bNetworkAvailable` and the yellow lamp, which is off while the server is there
and blinks while it is not.
-/

namespace Acu.Delegator

open Acu.Core Employee Web

namespace MainDelegator

/-- `checkNetwork` with the outcome of `request_GetNetInfo`. -/
def checkNetwork (netInfo : Except WebExcept Bool) (s : MainDelegator) :
    Bool × MainDelegator × List Effect :=
  match netInfo with
  | .error _ => (false, s.displayNetworkStatus false)
  | .ok ret =>
      if ret then (true, s.displayNetworkStatus true) else (false, s.displayNetworkStatus false)

end MainDelegator

inductive Lamp where
  | off
  | blinking
  deriving DecidableEq, Repr

/-- The yellow lamp after the calls of a list. -/
def yellowLed (l : Lamp) (effects : List Effect) : Lamp :=
  effects.foldl (fun l e =>
    match e with
    | .gpio .yellowLed .off => .off
    | .blink .yellowLed _ _ => .blinking
    | _ => l) l

/-- The object, its yellow lamp, and whether a reply arrived at the last contact with the
server. -/
structure Gate where
  delegator : MainDelegator
  yellowLed : Lamp
  arrived : Bool

/-- A call with the status of the request it makes, and with the value in the result field of
the request: `m_pRet` is never null, and holds nothing of a reply unless one arrived. -/
inductive GateCall where
  | onData (c : Card) (status : Ret) (m_pRet : Bytes)
  | checkNetwork (status : Ret) (m_ret : Bool)

namespace Gate

variable (signedChar : Bool) (cfg : Settings)

def checkNetwork (status : Ret) (m_ret : Bool) (g : Gate) : Gate :=
  let (_, s, effects) := g.delegator.checkNetwork (outcome status m_ret)
  ⟨s, Delegator.yellowLed g.yellowLed effects, status = .RET_SUCCESS⟩

/-- With the local database no request is made. -/
def onData (c : Card) (status : Ret) (m_pRet : Bytes) (g : Gate) : Option Gate := do
  let reply := outcome status (some m_pRet)
  let (s, effects) ← g.delegator.onData signedChar cfg { c with reply := reply }
  some ⟨s, Delegator.yellowLed g.yellowLed effects,
    if cfg.employee.m_bUseLocalDB then g.arrived else status = .RET_SUCCESS⟩

def calls : Machine Gate GateCall where
  step g
    | .onData c status m_pRet => g.onData signedChar cfg c status m_pRet
    | .checkNetwork status m_ret => some (g.checkNetwork status m_ret)

/-- After the constructor, which makes the first call of `checkNetwork`. -/
def started (s : MainDelegator) (l : Lamp) (status : Ret) (m_ret : Bool) : Gate :=
  checkNetwork status m_ret ⟨{ s with bInitialized := false }, l, false⟩

/-- Member and lamp show the result of the last contact. -/
def Shows (g : Gate) : Prop :=
  g.delegator.m_bNetworkAvailable = g.arrived ∧
    g.yellowLed = if g.arrived then .off else .blinking

end Gate

/-- The check of the network tells whether a reply arrived: the reply says yes, and no failure
goes by without an exception unless the result field says no. -/
def CheckTells (status : Ret) (m_ret : Bool) : Prop :=
  (status = .RET_SUCCESS → m_ret = true) ∧
    (status ≠ .RET_SUCCESS → THROW_EXCEPTION status = none → m_ret = false)

/-- What the display must have shown before a call for it to be right afterwards. -/
def KeepsDisplay (cfg : Settings) (g : Gate) : GateCall → Prop
  | .onData _ status _ =>
      if cfg.employee.m_bUseLocalDB then g.delegator.m_bNetworkAvailable = true
      else THROW_EXCEPTION status = none →
        g.delegator.m_bNetworkAvailable = decide (status = .RET_SUCCESS)
  | .checkNetwork status m_ret => CheckTells status m_ret

/-! ## The lamp -/

section Lamps

theorem yellowLed_append (l : Lamp) (es fs : List Effect) :
    yellowLed l (es ++ fs) = yellowLed (yellowLed l es) fs :=
  List.foldl_append

/-- Calls that are not on the yellow lamp leave it as it is. -/
theorem yellowLed_refused (l : Lamp) (cfg : Settings) (msg : Bytes) :
    yellowLed l (MainDelegator.refused cfg msg) = l := by
  unfold MainDelegator.refused
  cases cfg.m_bSound <;> rfl

theorem yellowLed_admitted (l : Lamp) (cfg : Settings) (msg : Bytes) :
    yellowLed l (MainDelegator.admitted cfg msg) = l := by
  unfold MainDelegator.admitted
  cases cfg.m_bSound <;> rfl

theorem yellowLed_capture (l : Lamp) (cfg : Settings) (picture : Option Bytes) :
    yellowLed l (MainDelegator.capture cfg picture).1 = l := by
  unfold MainDelegator.capture
  split
  · split <;> rfl
  · rfl

/-- The decision on a card touches neither the display nor the lamp. -/
theorem decideEntry_display (cfg : Settings) (c : Card) (ret : Bool) (ei : EmployeeInfo)
    (s : MainDelegator) (l : Lamp) :
    (s.decideEntry cfg c ret ei).1.m_bNetworkAvailable = s.m_bNetworkAvailable ∧
      (s.decideEntry cfg c ret ei).1.bInitialized = s.bInitialized ∧
      yellowLed l (s.decideEntry cfg c ret ei).2 = l := by
  unfold MainDelegator.decideEntry
  cases ret with
  | false => exact ⟨rfl, rfl, yellowLed_refused l cfg _⟩
  | true =>
      cases checkValidate cfg c.today ei with
      | mk valid msg =>
          cases valid with
          | false => exact ⟨rfl, rfl, yellowLed_refused l cfg msg⟩
          | true =>
              refine ⟨rfl, rfl, ?_⟩
              show yellowLed l (MainDelegator.admitted cfg msg ++
                (MainDelegator.capture cfg c.picture).1) = l
              rw [yellowLed_append, yellowLed_admitted, yellowLed_capture]

end Lamps

/-! ## One call -/

section Calls

variable {signedChar : Bool} {cfg : Settings}

/-- Member and lamp agree, once the display has been set. -/
def LampAgrees (s : MainDelegator) (l : Lamp) : Prop :=
  s.bInitialized = true → l = if s.m_bNetworkAvailable then .off else .blinking

/-- Whatever the display showed, it shows the value afterwards. -/
theorem displayNetworkStatus_shows (val : Bool) {s : MainDelegator} {l : Lamp}
    (h : LampAgrees s l) :
    (s.displayNetworkStatus val).1.m_bNetworkAvailable = val ∧
      (s.displayNetworkStatus val).1.bInitialized = true ∧
      yellowLed l (s.displayNetworkStatus val).2 = if val then .off else .blinking := by
  unfold MainDelegator.displayNetworkStatus
  split
  · cases val <;> exact ⟨rfl, rfl, rfl⟩
  next hno =>
    obtain ⟨hinit, hval⟩ : s.bInitialized = true ∧ val = s.m_bNetworkAvailable := by
      simpa using hno
    refine ⟨hval.symm, hinit, ?_⟩
    rw [hval]
    exact h hinit

/-- `bServerActive` as `onData` gets it: 1 for every call of the server that throws nothing. -/
theorem obtain_active {c : Card} {status : Ret} {m_pRet : Bytes} {ret : Bool} {ei : EmployeeInfo}
    {bServerActive : Int} (h : MainDelegator.obtain signedChar cfg
      { c with reply := outcome status (some m_pRet) } = some (ret, ei, bServerActive)) :
    bServerActive = if cfg.employee.m_bUseLocalDB then -1
      else if THROW_EXCEPTION status = none then 1 else 0 := by
  unfold MainDelegator.obtain EmployeeInfoMgr.getInfo at h
  cases hl : cfg.employee.m_bUseLocalDB with
  | true =>
      rw [hl, if_pos rfl] at h
      obtain ⟨⟨r, e⟩, -, heq⟩ := Option.bind_eq_some_iff.mp h
      cases heq
      rfl
  | false =>
      rw [hl, if_neg Bool.false_ne_true] at h
      cases ht : THROW_EXCEPTION status with
      | none =>
          simp only [outcome, ht] at h
          obtain ⟨⟨r, e⟩, -, heq⟩ := Option.bind_eq_some_iff.mp h
          cases heq
          rfl
      | some e =>
          simp only [outcome, ht] at h
          obtain ⟨⟨r, e⟩, -, heq⟩ := Option.bind_eq_some_iff.mp h
          cases heq
          rfl

/-- The last statement of `onData` on the display. -/
theorem serverActive_shows (bServerActive : Int) {s : MainDelegator} {l : Lamp} (h : LampAgrees s l)
    (hinit : s.bInitialized = true) {r : MainDelegator × List Effect}
    (hr : (if bServerActive ≤ 0 then s.displayNetworkStatus (bServerActive != 0)
      else (s, [])) = r) :
    r.1.bInitialized = true ∧ LampAgrees r.1 (yellowLed l r.2) ∧
      r.1.m_bNetworkAvailable =
        if bServerActive ≤ 0 then bServerActive != 0 else s.m_bNetworkAvailable := by
  by_cases hle : bServerActive ≤ 0
  · rw [if_pos hle] at hr ⊢
    obtain ⟨havail, hset, hlamp⟩ := displayNetworkStatus_shows (bServerActive != 0) h
    rw [hr] at havail hset hlamp
    refine ⟨hset, fun _ => ?_, havail⟩
    rw [hlamp, havail]
  · rw [if_neg hle] at hr ⊢
    rw [← hr]
    exact ⟨hinit, h, rfl⟩

/-- What a card leaves on the display. -/
theorem onData_display {g g' : Gate} {c : Card} {status : Ret} {m_pRet : Bytes}
    (hg : LampAgrees g.delegator g.yellowLed) (hinit : g.delegator.bInitialized = true)
    (h : g.onData signedChar cfg c status m_pRet = some g') :
    g'.delegator.bInitialized = true ∧ LampAgrees g'.delegator g'.yellowLed ∧
      g'.delegator.m_bNetworkAvailable =
        (if cfg.employee.m_bUseLocalDB then true
          else if THROW_EXCEPTION status = none then g.delegator.m_bNetworkAvailable
          else false) ∧
      g'.arrived =
        if cfg.employee.m_bUseLocalDB then g.arrived else decide (status = .RET_SUCCESS) := by
  obtain ⟨⟨t, effects⟩, hcall, heq⟩ := Option.bind_eq_some_iff.mp h
  cases heq
  obtain ⟨⟨ret, ei, bServerActive⟩, hobtain, hcall⟩ := Option.bind_eq_some_iff.mp hcall
  have hactive := obtain_active hobtain
  cases hd : MainDelegator.decideEntry cfg { c with reply := outcome status (some m_pRet) } ret ei
      { g.delegator with m_bProcessingRfidData := true } with
  | mk s₁ decided =>
  cases hn : (if bServerActive ≤ 0 then s₁.displayNetworkStatus (bServerActive != 0)
      else (s₁, [])) with
  | mk s₂ shown =>
  simp only [hd, hn, Option.some.injEq, Prod.mk.injEq] at hcall
  rcases hcall with ⟨rfl, rfl⟩
  obtain ⟨havail₁, hinit₁, hlamp₁⟩ := decideEntry_display cfg
    { c with reply := outcome status (some m_pRet) } ret ei
    { g.delegator with m_bProcessingRfidData := true } g.yellowLed
  rw [hd] at havail₁ hinit₁ hlamp₁
  have hagree : LampAgrees s₁ g.yellowLed := by
    intro _
    rw [havail₁]
    exact hg hinit
  obtain ⟨hset, hshown, havail⟩ := serverActive_shows bServerActive hagree (hinit₁.trans hinit) hn
  have hlamp : yellowLed g.yellowLed ([.stopPlaying, .gpio .greenLed .off, .gpio .redLed .off,
      .onMessage "RfidNo" c.serialNumber] ++ decided ++ shown) = yellowLed g.yellowLed shown := by
    rw [yellowLed_append, yellowLed_append]
    exact congrArg (yellowLed · shown) hlamp₁
  refine ⟨hset, fun _ => ?_, ?_, rfl⟩
  · rw [hlamp]
    exact hshown hset
  · show s₂.m_bNetworkAvailable = _
    rw [havail, havail₁, hactive]
    cases cfg.employee.m_bUseLocalDB with
    | true => rfl
    | false =>
        by_cases ht : THROW_EXCEPTION status = none
        · simp [ht]
        · simp [ht]

/-- What a check leaves on the display. -/
theorem checkNetwork_display (status : Ret) (m_ret : Bool) {g : Gate}
    (hg : LampAgrees g.delegator g.yellowLed) :
    (g.checkNetwork status m_ret).delegator.bInitialized = true ∧
      LampAgrees (g.checkNetwork status m_ret).delegator (g.checkNetwork status m_ret).yellowLed ∧
      (g.checkNetwork status m_ret).delegator.m_bNetworkAvailable =
        (decide (THROW_EXCEPTION status = none) && m_ret) := by
  have hshown : ∀ val : Bool, (g.delegator.checkNetwork (outcome status m_ret)).2 =
      g.delegator.displayNetworkStatus val →
      (g.checkNetwork status m_ret).delegator.bInitialized = true ∧
        LampAgrees (g.checkNetwork status m_ret).delegator (g.checkNetwork status m_ret).yellowLed ∧
        (g.checkNetwork status m_ret).delegator.m_bNetworkAvailable = val := by
    intro val hval
    obtain ⟨havail, hset, hlamp⟩ := displayNetworkStatus_shows val hg
    rw [← hval] at havail hset hlamp
    refine ⟨hset, fun _ => ?_, havail⟩
    exact hlamp.trans (by rw [← havail]; rfl)
  cases ht : THROW_EXCEPTION status with
  | none =>
      cases m_ret with
      | true => exact hshown true (by simp [MainDelegator.checkNetwork, outcome, ht])
      | false => exact hshown false (by simp [MainDelegator.checkNetwork, outcome, ht])
  | some e => exact hshown false (by simp [MainDelegator.checkNetwork, outcome, ht])

/-- A display in which member and lamp agree shows what the member holds. -/
theorem shows_iff {g : Gate} (hinit : g.delegator.bInitialized = true)
    (hg : LampAgrees g.delegator g.yellowLed) :
    g.Shows ↔ g.delegator.m_bNetworkAvailable = g.arrived := by
  unfold Gate.Shows
  constructor
  · exact And.left
  · intro h
    refine ⟨h, ?_⟩
    rw [← h]
    exact hg hinit

theorem checkNetwork_shows_iff (status : Ret) (m_ret : Bool) {g : Gate}
    (hg : LampAgrees g.delegator g.yellowLed) :
    (g.checkNetwork status m_ret).Shows ↔ CheckTells status m_ret := by
  obtain ⟨hset, hagree, havail⟩ := checkNetwork_display status m_ret hg
  have harrived : (g.checkNetwork status m_ret).arrived = decide (status = .RET_SUCCESS) := rfl
  rw [shows_iff hset hagree, havail, harrived, CheckTells]
  cases status <;> simp [THROW_EXCEPTION]

/-- A call keeps the display right exactly under its condition. -/
theorem step_shows_iff {g g' : Gate} {a : GateCall} (hg : LampAgrees g.delegator g.yellowLed)
    (hinit : g.delegator.bInitialized = true) (hs : g.Shows)
    (h : (Gate.calls signedChar cfg).step g a = some g') :
    g'.delegator.bInitialized = true ∧ LampAgrees g'.delegator g'.yellowLed ∧
      (g'.Shows ↔ KeepsDisplay cfg g a) := by
  cases a with
  | onData c status m_pRet =>
      obtain ⟨hset, hagree, havail, harrived⟩ := onData_display hg hinit h
      refine ⟨hset, hagree, ?_⟩
      rw [shows_iff hset hagree, havail, harrived, KeepsDisplay]
      cases cfg.employee.m_bUseLocalDB with
      | true =>
          rw [hs.1]
          exact eq_comm
      | false => cases status <;> simp [THROW_EXCEPTION]
  | checkNetwork status m_ret =>
      cases h
      obtain ⟨hset, hagree, -⟩ := checkNetwork_display status m_ret hg
      exact ⟨hset, hagree, checkNetwork_shows_iff status m_ret hg⟩

end Calls

/-! ## Runs -/

/-- The display is set, and shows the last contact. -/
structure ShownRight (g : Gate) : Prop where
  set : g.delegator.bInitialized = true
  agree : LampAgrees g.delegator g.yellowLed
  shows : g.Shows

theorem run_shows_iff (signedChar : Bool) (cfg : Settings) {g : Gate} (hg : ShownRight g)
    (as : List GateCall) :
    (Gate.calls signedChar cfg).AllStates Gate.Shows g as ↔
      (Gate.calls signedChar cfg).AllSteps (KeepsDisplay cfg) g as := by
  refine Machine.allStates_iff_allSteps (I := ShownRight) (fun _ h => h.shows) ?_ ?_ hg as
  · intro g a g' hg hkeeps hstep
    obtain ⟨hset, hagree, hiff⟩ := step_shows_iff hg.agree hg.set hg.shows hstep
    exact ⟨hset, hagree, hiff.mpr hkeeps⟩
  · intro g a g' hg hbreaks hstep
    obtain ⟨-, -, hiff⟩ := step_shows_iff hg.agree hg.set hg.shows hstep
    exact fun hshown => hbreaks (hiff.mp hshown)

/-- After start-up and every run of calls the display shows the last contact precisely when the
first check told the truth and every call kept the display right. -/
theorem network_shown_iff (signedChar : Bool) (cfg : Settings) (s : MainDelegator) (l : Lamp)
    (status : Ret) (m_ret : Bool) (as : List GateCall) :
    (Gate.calls signedChar cfg).AllStates Gate.Shows (Gate.started s l status m_ret) as ↔
      CheckTells status m_ret ∧
        (Gate.calls signedChar cfg).AllSteps (KeepsDisplay cfg)
          (Gate.started s l status m_ret) as := by
  have hnew : LampAgrees { s with bInitialized := false } l := by
    intro h
    cases h
  have hfirst : (Gate.started s l status m_ret).Shows ↔ CheckTells status m_ret :=
    checkNetwork_shows_iff status m_ret hnew
  have hright : (Gate.started s l status m_ret).Shows →
      ShownRight (Gate.started s l status m_ret) := by
    intro hshows
    obtain ⟨hset, hagree, -⟩ := checkNetwork_display status m_ret
      (show LampAgrees (Gate.mk { s with bInitialized := false } l false).delegator l from hnew)
    exact ⟨hset, hagree, hshows⟩
  constructor
  · intro h
    exact ⟨hfirst.mp h.head, (run_shows_iff signedChar cfg (hright h.head) as).mp h⟩
  · intro h
    exact (run_shows_iff signedChar cfg (hright (hfirst.mpr h.1)) as).mpr h.2

/-- A gate that uses the local database, which is empty. -/
def localDB : Settings :=
  ⟨false, false, false, [], [], ⟨true, [], [], false, []⟩⟩

def unknownCard : Card where
  serialNumber := ascii "1"
  m_employInfoMrg := ⟨true, []⟩
  reply := .ok none
  block := emptyBlock
  today := ⟨2020, 1, 1⟩
  picture := none
  now := ⟨120, 0, 1, 8, 0, 0⟩

/-- The server cannot be reached at start-up, and a card is read: "Server ON". -/
theorem unknown_shown_as_on :
    ¬ (Gate.calls false localDB).AllStates Gate.Shows
      (Gate.started ⟨false, false, false, []⟩ .off .RET_CONNECT_FAIL false)
      [.onData unknownCard .RET_CONNECT_FAIL []] := by
  intro h
  have hshows := (h.2 _ rfl).1
  exact absurd hshows (by decide)

end Acu.Delegator
