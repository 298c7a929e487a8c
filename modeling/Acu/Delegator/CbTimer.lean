import Acu.Core.Exceptions
import Acu.Delegator.Network

/-!
# The periodic jobs

`cbTimer` with the calls it makes, over what these give back or throw. Enumerations
with the name `Exception` stand in several scopes; inside `MainDelegator` the name
means its own, which nothing throws.
-/

namespace Acu.Delegator

open Acu.Core Acu.Core.CMemory Employee Web
open Attendance (Tm)

/-! ## Exceptions -/

/-- What is thrown, by the type a catch clause names. -/
inductive Thrown where
  | WebService_Except (e : WebExcept)
  | network_Exception
  | filesystem_Exception
  | MainDelegator_Exception
  deriving DecidableEq, Repr

namespace Thrown

def isWebService_Except : Thrown → Bool
  | WebService_Except _ => true
  | _ => false

def isFilesystem_Exception : Thrown → Bool
  | filesystem_Exception => true
  | _ => false

/-- `catch(Exception e)` in a member of `MainDelegator`. -/
def isMainDelegator_Exception : Thrown → Bool
  | MainDelegator_Exception => true
  | _ => false

end Thrown

/-- A web request. -/
def request {α : Type} (outcome : Except WebExcept α) : Exec Thrown α :=
  .ofOutcome .WebService_Except outcome

/-! ## What a tick calls -/

/-- The system calls of `GetIpAddress`: the socket, the `ioctl`, and each interface with the text
that `inet_ntop` makes of its address. -/
structure IfCalls where
  socket : Int
  ioctl : Int
  ifr : List (Bytes × Option Bytes)

def GetIpAddress (if_name : Bytes) (c : IfCalls) : Exec Thrown (Option Bytes) :=
  if c.socket < 0 then .threw .network_Exception
  else if c.ioctl = -1 then .threw .network_Exception
  else
    match c.ifr.find? fun r => r.1 == if_name with
    | none => .returned none
    | some (_, none) => .threw .network_Exception
    | some (_, some ip) => .returned (some ip)

/-- The tokens of a text, with the part of a token read so far. -/
def strtok (delims : Bytes) : Bytes → Bytes → List Bytes
  | [], tok => if tok = [] then [] else [tok]
  | c :: cs, tok =>
      if c ∈ delims then
        if tok = [] then strtok delims cs [] else tok :: strtok delims cs []
      else strtok delims cs (tok ++ [c])

/-- What `getSeverTime` calls. -/
structure TimeCalls where
  time_buf : Except WebExcept (Option Bytes)
  mktime : Tm → Int
  stime : Int → Int

/-- The clock is set from six numbers; any other count of them is left alone. -/
def TimeCalls.set (c : TimeCalls) (t : List Int) : Bool :=
  match t with
  | [year, mon, mday, hour, min, sec] =>
      let tt := c.mktime ⟨year - 1900, mon - 1, mday, hour, min, sec⟩
      decide (0 ≤ tt) && decide (0 ≤ c.stime tt)
  | _ => true

def getSeverTime (c : TimeCalls) : Exec Thrown Bool :=
  Exec.catchIf
    (do
      match ← request c.time_buf with
      | none => .undefined -- no `return` behind the `if`
      | some text =>
          match strtok (ascii "-T:") text [] with
          | [] => .undefined -- `atoi(NULL)`
          | toks => .returned (c.set ((toks.take 6).map atoi)))
    Thrown.isWebService_Except (.returned false)

/-- What `upload` calls: the list of files, each with the outcome of its request, and the
requests for the time sheets. -/
structure UploadCalls where
  getList : Except Unit (List (Except WebExcept Bool))
  inserts : List (Except WebExcept Bool)

/-- The loop over the files, left at the first exception. -/
def sendFiles : List (Except WebExcept Bool) → Exec Thrown Bool
  | [] => .returned true
  | r :: rs => do
      let sent ← Exec.catchIf (do let _ ← request r; return true) Thrown.isWebService_Except
        (.returned false)
      if sent then sendFiles rs else return false

/-- The loop over the time sheets. -/
def insertSheets : List (Except WebExcept Bool) → Exec Thrown (List Bool)
  | [] => .returned []
  | r :: rs => do
      let ret ← Exec.catchIf (request r) Thrown.isWebService_Except (.returned false)
      let rets ← insertSheets rs
      return ret :: rets

def upload (c : UploadCalls) : Exec Thrown Bool := do
  let filelist ← Exec.catchIf
    (do let files ← Exec.ofOutcome (fun _ => Thrown.filesystem_Exception) c.getList
        return some files)
    Thrown.isFilesystem_Exception (.returned none)
  match filelist with
  | none => return false
  | some files =>
      if ← sendFiles files then
        let _ ← insertSheets c.inserts
        return true
      else return false

/-- What a refresh of the database depends on: its download and the files at that time. -/
structure RefreshCalls where
  env : UpdateEnv
  disk : Disk String

def updateLocalDB (cfg : Config) (mgr : EmployeeInfoMgr) (bForce : Bool) (c : RefreshCalls) :
    Exec Thrown EmployeeInfoMgr :=
  .ofOption (EmployeeInfoMgr.updateLocalDB cfg mgr bForce c.env c.disk).value

/-- One tick: the local time, whether a card is being processed, and what the calls give. -/
structure Tick where
  now : Tm
  m_bProcessingRfidData : Bool
  nightly : RefreshCalls
  serialOpen : Bool
  netInfo : Except WebExcept Bool
  time : TimeCalls
  ip : IfCalls
  statusUpdate : Except WebExcept Unit
  refresh : RefreshCalls
  upload : UploadCalls

/-! ## The callback -/

/-- The members that the callback keeps, and its static `count`. -/
structure TimerState where
  count : Int
  m_serialRfidRuning : Bool
  m_bTimeAvailable : Bool
  m_sLocalIP : Bytes
  delegator : MainDelegator
  m_employInfoMrg : EmployeeInfoMgr

namespace TimerState

variable (cfg : Config) (i : Tick)

/-- The jobs that go by the time of day; at midnight a line is logged. -/
def nightly (s : TimerState) : Exec Thrown TimerState :=
  if i.now.tm_hour = 0 ∧ i.now.tm_min = 0 then return s
  else if i.now.tm_hour = 3 ∧ i.now.tm_min = 0 then do
    let mgr ← updateLocalDB cfg s.m_employInfoMrg true i.nightly
    return { s with m_employInfoMrg := mgr }
  else return s

def openReader (s : TimerState) : TimerState :=
  if !s.m_serialRfidRuning then { s with m_serialRfidRuning := i.serialOpen } else s

/-- `if(md->checkNetwork() && !md->m_bTimeAvailable) ...`. -/
def checkTime (s : TimerState) : Exec Thrown TimerState :=
  let (ret, delegator, _) := s.delegator.checkNetwork i.netInfo
  if ret && !s.m_bTimeAvailable then do
    let m_bTimeAvailable ← getSeverTime i.time
    return { s with delegator := delegator, m_bTimeAvailable := m_bTimeAvailable }
  else return { s with delegator := delegator }

/-- The address is asked for while it is not known. -/
def localIP (s : TimerState) : Exec Thrown Bytes :=
  if s.m_sLocalIP = [] then
    Exec.catchIf
      (do
        match ← GetIpAddress (ascii "eth0") i.ip with
        | some p => return p
        | none => .undefined) -- a string is made of a null pointer
      Thrown.isMainDelegator_Exception (.returned [])
  else return s.m_sLocalIP

/-- The `switch` on the slot. -/
def slot (s : TimerState) : Exec Thrown TimerState :=
  if s.count = 3 then return s
  else if s.count = 1 ∨ s.count = 6 then do
    let m_sLocalIP ← s.localIP i
    Exec.catchIf (request i.statusUpdate) Thrown.isWebService_Except (.returned ())
    return { s with m_sLocalIP := m_sLocalIP }
  else if s.count = 8 then do
    let mgr ← updateLocalDB cfg s.m_employInfoMrg false i.refresh
    return { s with m_employInfoMrg := mgr }
  else if s.count = 9 then return { s with count := -1 }
  else do
    let _ ← Delegator.upload i.upload
    return s

def cbTimer (s : TimerState) : Exec Thrown TimerState := do
  let s ← s.nightly cfg i
  let s := s.openReader i
  if i.m_bProcessingRfidData then return s
  else
    let s ← s.checkTime i
    let s ← s.slot cfg i
    return { s with count := s.count + 1 }

end TimerState

/-- The timer thread: an exception that leaves the callback ends the process. -/
inductive TimerProcess where
  | alive (s : TimerState)
  | gone

def ticks (cfg : Config) : Machine TimerProcess Tick where
  step
    | .alive s, i =>
        match s.cbTimer cfg i with
        | .returned t => some (.alive t)
        | _ => some .gone
    | .gone, _ => none

/-! ## The law of a tick -/

/-- The tick returns, and counts the slots unless it was skipped. -/
def TickReturns (cfg : Config) : TimerProcess → Tick → Prop
  | .alive s, i => ∃ t, s.cbTimer cfg i = .returned t ∧
      t.count = if i.m_bProcessingRfidData then s.count else (s.count + 1) % 10
  | .gone, _ => True

/-- The download of a refresh, and the files behind it. -/
def RefreshCalls.downloaded (cfg : Config) (c : RefreshCalls) : Option (Except WebExcept Unit) :=
  match c.disk DB_FILE with
  | none => (EmployeeInfoMgr.download cfg c.env DB_FILE c.disk).value
  | some _ => (EmployeeInfoMgr.download cfg c.env TEMP_DB_FILE c.disk).value

def RefreshCalls.files (cfg : Config) (c : RefreshCalls) : Disk String :=
  match c.disk DB_FILE with
  | none => FileEvent.replay c.disk (EmployeeInfoMgr.download cfg c.env DB_FILE c.disk).events
  | some _ => FileEvent.replay c.disk (EmployeeInfoMgr.replacing cfg c.env c.disk)

/-- A refresh is skipped, or its download fails, or the download leaves a database that is there
and that the parser reads without leaving the text. -/
def Refreshes (cfg : Config) (m_bUpdated bForce : Bool) (c : RefreshCalls) : Prop :=
  (m_bUpdated && !bForce) = true ∨ (∃ e, c.downloaded cfg = some (.error e)) ∨
    (c.downloaded cfg = some (.ok ()) ∧ ∃ text elems, c.files cfg DB_FILE = some text ∧
      fillEmployeeInfoes c.env.blocks (text ++ c.env.tail) [] = some elems)

/-- A reply with a time is a text with a character that is no separator. -/
def TimeReadable (c : TimeCalls) : Prop :=
  ∀ time_buf, c.time_buf = .ok time_buf →
    ∃ text, time_buf = some text ∧ ∃ b ∈ text, b ∉ ascii "-T:"

/-- `eth0` has an address. -/
def AddressFound (c : IfCalls) : Prop :=
  ∃ ip, GetIpAddress (ascii "eth0") c = .returned (some ip)

/-- The forced refresh is due. -/
def Tick.AtThree (i : Tick) : Prop := i.now.tm_hour = 3 ∧ i.now.tm_min = 0

instance (i : Tick) : Decidable i.AtThree := inferInstanceAs (Decidable (_ ∧ _))

/-- `m_bUpdated` behind the forced refresh. -/
def updatedByNight (cfg : Config) (s : TimerState) (i : Tick) : Bool :=
  if i.AtThree then
    match i.nightly.downloaded cfg with
    | some (.ok _) => true
    | _ => false
  else s.m_employInfoMrg.m_bUpdated

/-- The condition under which a tick keeps the law. -/
structure TickSafe (cfg : Config) (s : TimerState) (i : Tick) : Prop where
  nightly : i.AtThree → Refreshes cfg s.m_employInfoMrg.m_bUpdated true i.nightly
  time : i.m_bProcessingRfidData = false → i.netInfo = .ok true → s.m_bTimeAvailable = false →
    TimeReadable i.time
  address : i.m_bProcessingRfidData = false → s.count = 1 ∨ s.count = 6 → s.m_sLocalIP = [] →
    AddressFound i.ip
  refresh : i.m_bProcessingRfidData = false → s.count = 8 →
    Refreshes cfg (updatedByNight cfg s i) false i.refresh

def ProcessSafe (cfg : Config) : TimerProcess → Tick → Prop
  | .alive s, i => TickSafe cfg s i
  | .gone, _ => True

/-! ## The calls -/

section Calls

theorem catchIf_request {α : Type} (outcome : Except WebExcept α) (handler : Exec Thrown α) :
    Exec.catchIf (request outcome) Thrown.isWebService_Except handler =
      match outcome with
      | .ok a => .returned a
      | .error _ => handler := by
  cases outcome with
  | ok a => rfl
  | error e => rfl

theorem sendFiles_returns (rs : List (Except WebExcept Bool)) : (sendFiles rs).Returns := by
  induction rs with
  | nil => exact Exec.returns_returned true
  | cons r rs ih =>
      cases r with
      | ok ret => exact ih
      | error e => exact Exec.returns_returned false

theorem insertSheets_returns (rs : List (Except WebExcept Bool)) :
    (insertSheets rs).Returns := by
  induction rs with
  | nil => exact Exec.returns_returned []
  | cons r rs ih =>
      rcases ih with ⟨rets, hrets⟩
      unfold insertSheets
      rw [catchIf_request]
      cases r with
      | ok ret => exact ⟨ret :: rets, by rw [Exec.returned_bind, hrets]; rfl⟩
      | error e => exact ⟨false :: rets, by rw [Exec.returned_bind, hrets]; rfl⟩

/-- Every exception of an upload is caught in it. -/
theorem upload_returns (c : UploadCalls) : (Delegator.upload c).Returns := by
  unfold Delegator.upload
  cases c.getList with
  | error e => exact Exec.returns_returned false
  | ok files =>
      show Exec.Returns (do
        if ← sendFiles files then
          let _ ← insertSheets c.inserts
          return true
        else return false)
      obtain ⟨sent, hsent⟩ := sendFiles_returns files
      obtain ⟨rets, hrets⟩ := insertSheets_returns c.inserts
      rw [hsent, Exec.returned_bind]
      cases sent with
      | false => exact Exec.returns_returned false
      | true =>
          rw [if_pos rfl, hrets]
          exact Exec.returns_returned true

theorem strtok_eq_nil_iff (delims s tok : Bytes) :
    strtok delims s tok = [] ↔ tok = [] ∧ ∀ b ∈ s, b ∈ delims := by
  induction s generalizing tok with
  | nil =>
      unfold strtok
      split <;> simp [*]
  | cons c cs ih =>
      unfold strtok
      split
      next hc =>
        split
        next htok => simp [ih, hc, htok]
        next htok => simp [htok]
      next hc => simp [ih, hc]

/-- The time is set, or the request throws, exactly when the reply can be read. -/
theorem getSeverTime_returns_iff (c : TimeCalls) : (getSeverTime c).Returns ↔ TimeReadable c := by
  unfold getSeverTime TimeReadable
  cases c.time_buf with
  | error e =>
      refine iff_of_true (Exec.returns_returned false) ?_
      intro time_buf h
      cases h
  | ok time_buf =>
      cases time_buf with
      | none =>
          refine iff_of_false Exec.not_returns_undefined ?_
          intro h
          obtain ⟨text, ht, -⟩ := h none rfl
          cases ht
      | some text =>
          have hnil := strtok_eq_nil_iff (ascii "-T:") text []
          have hread : (∀ time_buf, Except.ok (some text) = (.ok time_buf : Except WebExcept _) →
              ∃ text, time_buf = some text ∧ ∃ b ∈ text, b ∉ ascii "-T:") ↔
              ∃ b ∈ text, b ∉ ascii "-T:" := by
            constructor
            · intro h
              obtain ⟨text', ht, hb⟩ := h (some text) rfl
              cases ht
              exact hb
            · intro h time_buf ht
              cases ht
              exact ⟨text, rfl, h⟩
          rw [hread]
          show Exec.Returns (Exec.catchIf (match strtok (ascii "-T:") text [] with
            | [] => .undefined
            | toks => .returned (c.set ((toks.take 6).map atoi))) _ _) ↔ _
          cases htoks : strtok (ascii "-T:") text [] with
          | nil =>
              refine iff_of_false Exec.not_returns_undefined ?_
              intro h
              rcases h with ⟨b, hb, hno⟩
              exact hno ((hnil.mp htoks).2 b hb)
          | cons tok toks =>
              refine iff_of_true (Exec.returns_returned _) ?_
              by_contra hall
              have hempty := hnil.mpr ⟨rfl, by simpa using hall⟩
              rw [htoks] at hempty
              cases hempty

/-- The end of a refresh, and `m_bUpdated` behind it. -/
theorem updateLocalDB_eq (cfg : Config) (mgr : EmployeeInfoMgr) (bForce : Bool)
    (c : RefreshCalls) :
    (EmployeeInfoMgr.updateLocalDB cfg mgr bForce c.env c.disk).value =
      if (mgr.m_bUpdated && !bForce) = true then some mgr
      else
        match c.downloaded cfg with
        | none => none
        | some (.error _) => some { mgr with m_bUpdated := false }
        | some (.ok _) => (c.files cfg DB_FILE).bind fun text =>
            (fillEmployeeInfoes c.env.blocks (text ++ c.env.tail) []).map fun elems =>
              ⟨true, elems⟩ := by
  by_cases hskip : (mgr.m_bUpdated && !bForce) = true
  · rw [if_pos hskip, EmployeeInfoMgr.updateLocalDB_skipped hskip]
  · rw [if_neg hskip]
    have hgo : (mgr.m_bUpdated && !bForce) = false := by simpa using hskip
    unfold RefreshCalls.downloaded RefreshCalls.files
    cases hd : c.disk DB_FILE with
    | none =>
        rw [EmployeeInfoMgr.updateLocalDB_absent hgo hd]
        dsimp only
        cases (EmployeeInfoMgr.download cfg c.env DB_FILE c.disk).value with
        | none => rfl
        | some r =>
            cases r with
            | error e => rfl
            | ok u =>
                dsimp only
                rw [EmployeeInfoMgr.reload_apply]
    | some text =>
        rw [EmployeeInfoMgr.updateLocalDB_present hgo hd]
        cases (EmployeeInfoMgr.download cfg c.env TEMP_DB_FILE c.disk).value with
        | none => rfl
        | some r =>
            cases r with
            | error e => rfl
            | ok u =>
                dsimp only
                rw [EmployeeInfoMgr.reload_apply]

theorem updateLocalDB_returns_iff (cfg : Config) (mgr : EmployeeInfoMgr) (bForce : Bool)
    (c : RefreshCalls) :
    (updateLocalDB cfg mgr bForce c).Returns ↔ Refreshes cfg mgr.m_bUpdated bForce c := by
  unfold updateLocalDB Refreshes
  rw [Exec.ofOption_returns_iff, updateLocalDB_eq]
  by_cases hskip : (mgr.m_bUpdated && !bForce) = true
  · rw [if_pos hskip]
    exact iff_of_true ⟨mgr, rfl⟩ (.inl hskip)
  · rw [if_neg hskip]
    cases c.downloaded cfg with
    | none => simp [hskip]
    | some r =>
        cases r with
        | error e => simp
        | ok u =>
            cases c.files cfg DB_FILE with
            | none => simp [hskip]
            | some text => simp [hskip]

/-- Behind a forced refresh `m_bUpdated` tells whether the download went well. -/
theorem forced_updated {cfg : Config} {mgr mgr' : EmployeeInfoMgr} {c : RefreshCalls}
    (h : updateLocalDB cfg mgr true c = .returned mgr') :
    mgr'.m_bUpdated =
      match c.downloaded cfg with
      | some (.ok _) => true
      | _ => false := by
  unfold updateLocalDB at h
  rw [updateLocalDB_eq, Bool.not_true, Bool.and_false, if_neg Bool.false_ne_true] at h
  cases hd : c.downloaded cfg with
  | none =>
      rw [hd] at h
      cases h
  | some r =>
      rw [hd] at h
      cases r with
      | error e =>
          cases h
          rfl
      | ok u =>
          cases hv : (c.files cfg DB_FILE).bind fun text =>
              (fillEmployeeInfoes c.env.blocks (text ++ c.env.tail) []).map fun elems =>
                (⟨true, elems⟩ : EmployeeInfoMgr) with
          | none =>
              rw [hv] at h
              cases h
          | some m =>
              rw [hv] at h
              cases h
              obtain ⟨text, -, hm⟩ := Option.bind_eq_some_iff.mp hv
              obtain ⟨elems, -, rfl⟩ := Option.map_eq_some_iff.mp hm
              rfl

theorem GetIpAddress_threw {if_name : Bytes} {c : IfCalls} {e : Thrown}
    (h : GetIpAddress if_name c = .threw e) : e = .network_Exception := by
  unfold GetIpAddress at h
  split at h
  · cases h
    rfl
  · split at h
    · cases h
      rfl
    · split at h
      · cases h
      · cases h
        rfl
      · cases h

end Calls

/-! ## The tick -/

section Ticks

variable {cfg : Config} {s t : TimerState} {i : Tick}

theorem nightly_returns_iff : (s.nightly cfg i).Returns ↔
    (i.AtThree → Refreshes cfg s.m_employInfoMrg.m_bUpdated true i.nightly) := by
  unfold TimerState.nightly Tick.AtThree
  by_cases hzero : i.now.tm_hour = 0 ∧ i.now.tm_min = 0
  · rw [if_pos hzero]
    refine iff_of_true (Exec.returns_returned s) ?_
    intro h
    omega
  · rw [if_neg hzero]
    by_cases hthree : i.now.tm_hour = 3 ∧ i.now.tm_min = 0
    · rw [if_pos hthree, Exec.bind_returns_iff, forall_prop_of_true hthree,
        ← updateLocalDB_returns_iff]
      constructor
      · intro h
        rcases h with ⟨mgr, hmgr, -⟩
        exact ⟨mgr, hmgr⟩
      · intro h
        rcases h with ⟨mgr, hmgr⟩
        exact ⟨mgr, hmgr, Exec.returns_returned _⟩
    · rw [if_neg hthree]
      exact iff_of_true (Exec.returns_returned s) (fun h => absurd h hthree)

/-- The jobs of the night touch only the database. -/
theorem nightly_spec (h : s.nightly cfg i = .returned t) :
    t = { s with m_employInfoMrg := t.m_employInfoMrg } ∧
      t.m_employInfoMrg.m_bUpdated = updatedByNight cfg s i := by
  unfold TimerState.nightly at h
  unfold updatedByNight
  split at h
  next hzero =>
    cases h
    have hno : ¬ i.AtThree := by
      unfold Tick.AtThree
      omega
    rw [if_neg hno]
    exact ⟨rfl, rfl⟩
  next =>
    split at h
    next hthree =>
      have hdue : i.AtThree := hthree
      rw [if_pos hdue]
      obtain ⟨mgr, hmgr, heq⟩ := Exec.bind_eq_returned.mp h
      cases heq
      refine ⟨rfl, ?_⟩
      exact forced_updated hmgr
    next hthree =>
      cases h
      have hno : ¬ i.AtThree := hthree
      rw [if_neg hno]
      exact ⟨rfl, rfl⟩

/-- `catch(Exception e)` takes none of the exceptions of `GetIpAddress`. -/
theorem localIP_returns_iff :
    (s.localIP i).Returns ↔ (s.m_sLocalIP = [] → AddressFound i.ip) := by
  unfold TimerState.localIP AddressFound
  by_cases hip : s.m_sLocalIP = []
  · rw [if_pos hip, forall_prop_of_true hip]
    cases hget : GetIpAddress (ascii "eth0") i.ip with
    | returned p =>
        cases p with
        | none =>
            refine iff_of_false Exec.not_returns_undefined ?_
            intro h
            rcases h with ⟨ip, hip⟩
            cases hip
        | some ip => exact iff_of_true (Exec.returns_returned ip) ⟨ip, rfl⟩
    | threw e =>
        rw [GetIpAddress_threw hget]
        refine iff_of_false (Exec.not_returns_threw _) ?_
        intro h
        rcases h with ⟨ip, hip⟩
        cases hip
    | undefined =>
        refine iff_of_false Exec.not_returns_undefined ?_
        intro h
        rcases h with ⟨ip, hip⟩
        cases hip
  · rw [if_neg hip]
    exact iff_of_true (Exec.returns_returned _) (fun h => absurd h hip)

theorem checkTime_returns_iff : (s.checkTime i).Returns ↔
    (i.netInfo = .ok true → s.m_bTimeAvailable = false → TimeReadable i.time) := by
  have hcheck : (s.delegator.checkNetwork i.netInfo).1 = true ↔ i.netInfo = .ok true := by
    unfold MainDelegator.checkNetwork
    cases i.netInfo with
    | error e => simp
    | ok ret => cases ret <;> simp
  unfold TimerState.checkTime
  by_cases hask : ((s.delegator.checkNetwork i.netInfo).1 && !s.m_bTimeAvailable) = true
  · obtain ⟨hnet, havail⟩ : i.netInfo = .ok true ∧ s.m_bTimeAvailable = false := by
      simpa [hcheck] using hask
    simp only [hask, if_true, Exec.bind_returns_iff]
    rw [forall_prop_of_true hnet, forall_prop_of_true havail, ← getSeverTime_returns_iff]
    constructor
    · intro h
      rcases h with ⟨b, hb, -⟩
      exact ⟨b, hb⟩
    · intro h
      rcases h with ⟨b, hb⟩
      exact ⟨b, hb, Exec.returns_returned _⟩
  · simp only [hask]
    refine iff_of_true (Exec.returns_returned _) ?_
    intro hnet havail
    apply absurd _ hask
    rw [hcheck.mpr hnet, havail]
    rfl

/-- The check of the network leaves the counter, the address and the database alone. -/
theorem checkTime_spec (h : s.checkTime i = .returned t) :
    t.count = s.count ∧ t.m_sLocalIP = s.m_sLocalIP ∧
      t.m_employInfoMrg = s.m_employInfoMrg := by
  unfold TimerState.checkTime at h
  simp only at h
  split at h
  · obtain ⟨b, -, heq⟩ := Exec.bind_eq_returned.mp h
    cases heq
    exact ⟨rfl, rfl, rfl⟩
  · cases h
    exact ⟨rfl, rfl, rfl⟩

/-- The job of a slot returns when the address it asks for is found and the database it
refreshes can be read. -/
theorem slot_returns_iff : (s.slot cfg i).Returns ↔
    (s.count = 1 ∨ s.count = 6 → s.m_sLocalIP = [] → AddressFound i.ip) ∧
      (s.count = 8 → Refreshes cfg s.m_employInfoMrg.m_bUpdated false i.refresh) := by
  unfold TimerState.slot
  by_cases h3 : s.count = 3
  · rw [if_pos h3]
    exact iff_of_true (Exec.returns_returned s) ⟨by omega, by omega⟩
  rw [if_neg h3]
  by_cases h16 : s.count = 1 ∨ s.count = 6
  · have h8 : ¬ s.count = 8 := by omega
    rw [if_pos h16, Exec.bind_returns_iff, forall_prop_of_true h16, ← localIP_returns_iff,
      forall_prop_of_false h8, catchIf_request]
    constructor
    · intro h
      rcases h with ⟨ip, hip, -⟩
      exact ⟨⟨ip, hip⟩, trivial⟩
    · intro h
      rcases h with ⟨⟨ip, hip⟩, -⟩
      refine ⟨ip, hip, ?_⟩
      cases i.statusUpdate with
      | ok u => exact Exec.returns_returned _
      | error e => exact Exec.returns_returned _
  rw [if_neg h16, forall_prop_of_false h16, true_and]
  by_cases h8 : s.count = 8
  · rw [if_pos h8, Exec.bind_returns_iff, forall_prop_of_true h8, ← updateLocalDB_returns_iff]
    constructor
    · intro h
      rcases h with ⟨mgr, hmgr, -⟩
      exact ⟨mgr, hmgr⟩
    · intro h
      rcases h with ⟨mgr, hmgr⟩
      exact ⟨mgr, hmgr, Exec.returns_returned _⟩
  rw [if_neg h8, forall_prop_of_false h8, iff_true]
  by_cases h9 : s.count = 9
  · rw [if_pos h9]
    exact Exec.returns_returned _
  · rw [if_neg h9, Exec.bind_returns_iff]
    obtain ⟨b, hb⟩ := upload_returns i.upload
    exact ⟨b, hb, Exec.returns_returned s⟩

/-- Slot 9 sets the counter back, the others leave it. -/
theorem slot_count (h : s.slot cfg i = .returned t) :
    t.count = if s.count = 9 then -1 else s.count := by
  unfold TimerState.slot at h
  split at h
  next h3 =>
    cases h
    rw [if_neg (by omega)]
  · split at h
    next h16 =>
      have h9 : ¬ s.count = 9 := by omega
      obtain ⟨ip, -, h⟩ := Exec.bind_eq_returned.mp h
      obtain ⟨u, -, heq⟩ := Exec.bind_eq_returned.mp h
      cases heq
      rw [if_neg h9]
    · split at h
      next h8 =>
        have h9 : ¬ s.count = 9 := by omega
        obtain ⟨mgr, -, heq⟩ := Exec.bind_eq_returned.mp h
        cases heq
        rw [if_neg h9]
      · split at h
        next h9 =>
          cases h
          rw [if_pos h9]
        next h9 =>
          obtain ⟨b, -, heq⟩ := Exec.bind_eq_returned.mp h
          cases heq
          rw [if_neg h9]

/-- What the rest of a tick finds of the members, when the night jobs have returned. -/
theorem openReader_nightly (h : s.nightly cfg i = .returned t) :
    (t.openReader i).count = s.count ∧ (t.openReader i).m_sLocalIP = s.m_sLocalIP ∧
      (t.openReader i).m_bTimeAvailable = s.m_bTimeAvailable ∧
      (t.openReader i).m_employInfoMrg.m_bUpdated = updatedByNight cfg s i := by
  obtain ⟨hkeep, hupdated⟩ := nightly_spec h
  have hreader : t.openReader i =
      { t with m_serialRfidRuning := (t.openReader i).m_serialRfidRuning } := by
    unfold TimerState.openReader
    split
    · rfl
    · rfl
  rw [hreader, ← hupdated]
  rw [hkeep]
  exact ⟨rfl, rfl, rfl, rfl⟩

/-- The rest of a tick that is not skipped. -/
theorem jobs_return_iff (s : TimerState) :
    (do let t ← s.checkTime i
        let t ← t.slot cfg i
        return { t with count := t.count + 1 }).Returns ↔
      (i.netInfo = .ok true → s.m_bTimeAvailable = false → TimeReadable i.time) ∧
      (s.count = 1 ∨ s.count = 6 → s.m_sLocalIP = [] → AddressFound i.ip) ∧
      (s.count = 8 → Refreshes cfg s.m_employInfoMrg.m_bUpdated false i.refresh) := by
  rw [← checkTime_returns_iff, Exec.bind_returns_iff]
  constructor
  · intro h
    rcases h with ⟨t, ht, hrest⟩
    obtain ⟨hcount, hip, hmgr⟩ := checkTime_spec ht
    obtain ⟨u, hu, -⟩ := Exec.bind_returns_iff.mp hrest
    have hslot := slot_returns_iff.mp ⟨u, hu⟩
    rw [hcount, hip, hmgr] at hslot
    exact ⟨⟨t, ht⟩, hslot⟩
  · intro h
    rcases h with ⟨⟨t, ht⟩, hslot⟩
    obtain ⟨hcount, hip, hmgr⟩ := checkTime_spec ht
    rw [← hcount, ← hip, ← hmgr] at hslot
    obtain ⟨u, hu⟩ := slot_returns_iff.mpr hslot
    exact ⟨t, ht, Exec.bind_returns_iff.mpr ⟨u, hu, Exec.returns_returned _⟩⟩

theorem cbTimer_returns_iff : (s.cbTimer cfg i).Returns ↔ TickSafe cfg s i := by
  unfold TimerState.cbTimer
  rw [Exec.bind_returns_iff]
  constructor
  · intro h
    rcases h with ⟨t, ht, hrest⟩
    have hnight := nightly_returns_iff.mp ⟨t, ht⟩
    obtain ⟨hcount, hip, havail, hupdated⟩ := openReader_nightly ht
    have hskip (hp : i.m_bProcessingRfidData = false) := if_neg (ne_true_of_eq_false hp) ▸ hrest
    have hjobs (hp : i.m_bProcessingRfidData = false) :=
      (jobs_return_iff (t.openReader i)).mp (hskip hp)
    simp only [hcount, hip, havail, hupdated] at hjobs
    exact ⟨hnight, fun hp => (hjobs hp).1, fun hp => (hjobs hp).2.1, fun hp => (hjobs hp).2.2⟩
  · intro h
    obtain ⟨t, ht⟩ := nightly_returns_iff.mpr h.nightly
    refine ⟨t, ht, ?_⟩
    obtain ⟨hcount, hip, havail, hupdated⟩ := openReader_nightly ht
    cases hp : i.m_bProcessingRfidData with
    | true => exact Exec.returns_returned _
    | false =>
        rw [if_neg Bool.false_ne_true]
        apply (jobs_return_iff (t.openReader i)).mpr
        rw [hcount, hip, havail, hupdated]
        exact ⟨h.time hp, h.address hp, h.refresh hp⟩

/-- A tick that returns counts the slots. -/
theorem cbTimer_count (hcount : 0 ≤ s.count ∧ s.count ≤ 9) (h : s.cbTimer cfg i = .returned t) :
    t.count = if i.m_bProcessingRfidData then s.count else (s.count + 1) % 10 := by
  unfold TimerState.cbTimer at h
  obtain ⟨t₁, ht₁, h⟩ := Exec.bind_eq_returned.mp h
  have hc₁ := (openReader_nightly ht₁).1
  cases hp : i.m_bProcessingRfidData with
  | true =>
      rw [hp, if_pos rfl] at h
      cases h
      rw [hc₁, if_pos rfl]
  | false =>
      rw [hp, if_neg Bool.false_ne_true] at h
      obtain ⟨t₂, ht₂, h⟩ := Exec.bind_eq_returned.mp h
      obtain ⟨t₃, ht₃, h⟩ := Exec.bind_eq_returned.mp h
      cases h
      have hc₂ := (checkTime_spec ht₂).1
      have hc₃ := slot_count ht₃
      show t₃.count + 1 = _
      rw [if_neg Bool.false_ne_true, hc₃, hc₂, hc₁]
      split
      next h9 => rw [h9]; rfl
      next h9 =>
        rw [Int.emod_eq_of_lt (by omega) (by omega)]

theorem tickReturns_iff (hcount : 0 ≤ s.count ∧ s.count ≤ 9) :
    TickReturns cfg (.alive s) i ↔ TickSafe cfg s i := by
  rw [← cbTimer_returns_iff]
  constructor
  · intro h
    rcases h with ⟨t, ht, -⟩
    exact ⟨t, ht⟩
  · intro h
    rcases h with ⟨t, ht⟩
    exact ⟨t, ht, cbTimer_count hcount ht⟩

end Ticks

/-! ## Runs -/

/-- The counter names a slot. -/
def TimerProcess.InSlots : TimerProcess → Prop
  | .alive s => 0 ≤ s.count ∧ s.count ≤ 9
  | .gone => True

theorem inSlots_new (s : TimerState) : (TimerProcess.alive { s with count := 0 }).InSlots := by
  show 0 ≤ (0 : Int) ∧ (0 : Int) ≤ 9
  decide

theorem inSlots_step {cfg : Config} {p q : TimerProcess} {i : Tick} (hp : p.InSlots)
    (h : (ticks cfg).step p i = some q) : q.InSlots := by
  cases p with
  | gone => cases h
  | alive s =>
      simp only [ticks] at h
      split at h
      next t ht =>
        cases h
        have hcount := cbTimer_count hp ht
        obtain ⟨hlow, hhigh⟩ : 0 ≤ s.count ∧ s.count ≤ 9 := hp
        show 0 ≤ t.count ∧ t.count ≤ 9
        rw [hcount]
        split <;> omega
      next =>
        cases h
        trivial

/-- Every tick of a run returns and counts precisely when every tick is safe. -/
theorem ticks_return_iff (cfg : Config) (s : TimerState) (is : List Tick) :
    (ticks cfg).AllSteps (TickReturns cfg) (.alive { s with count := 0 }) is ↔
      (ticks cfg).AllSteps (ProcessSafe cfg) (.alive { s with count := 0 }) is := by
  refine Machine.allSteps_congr (I := TimerProcess.InSlots)
    (fun _ _ _ hp _ hs => inSlots_step hp hs) ?_ (inSlots_new s) is
  intro p i q hp hs
  cases p with
  | gone => exact Iff.rfl
  | alive s => exact tickReturns_iff hp

/-! ## A gate without a network -/

def offline : RefreshCalls where
  env := ⟨⟨⟨-1, 0, false, 0, 0, [], 0, []⟩, ⟨List.replicate RCVHEADERBUFSIZE 0, zeros_length⟩,
    fun _ => 0⟩, [0], fun _ => emptyBlock⟩
  disk := fun _ => none

/-- Noon; the interfaces are as given. -/
def offlineTick (ip : IfCalls) : Tick where
  now := ⟨120, 0, 1, 12, 0, 0⟩
  m_bProcessingRfidData := false
  nightly := offline
  serialOpen := true
  netInfo := .error .EXCEPTION_CREATE_SOCKET
  time := ⟨.error .EXCEPTION_CREATE_SOCKET, fun _ => 0, fun _ => 0⟩
  ip := ip
  statusUpdate := .error .EXCEPTION_CREATE_SOCKET
  refresh := offline
  upload := ⟨.ok [], []⟩

def offlineState : TimerState where
  count := 0
  m_serialRfidRuning := true
  m_bTimeAvailable := false
  m_sLocalIP := []
  delegator := ⟨false, false, true, []⟩
  m_employInfoMrg := ⟨true, []⟩

/-- In slot 1 the string is made of a null pointer when there is no `eth0`, and the exception of
`GetIpAddress` escapes when there is no socket. -/
theorem offline_slot_one :
    ({ offlineState with count := 1 }.cbTimer ⟨false, [], [], false, []⟩
        (offlineTick ⟨3, 0, [(ascii "lo", some (ascii "127.0.0.1"))]⟩) = .undefined) ∧
      ({ offlineState with count := 1 }.cbTimer ⟨false, [], [], false, []⟩
        (offlineTick ⟨-1, 0, []⟩) = .threw .network_Exception) ∧
      ¬ (ticks ⟨false, [], [], false, []⟩).AllSteps (TickReturns ⟨false, [], [], false, []⟩)
        (.alive { offlineState with count := 0 })
        [offlineTick ⟨-1, 0, []⟩, offlineTick ⟨-1, 0, []⟩] := by
  have hthrows : { offlineState with count := 1 }.cbTimer ⟨false, [], [], false, []⟩
      (offlineTick ⟨-1, 0, []⟩) = .threw .network_Exception := rfl
  refine ⟨rfl, hthrows, ?_⟩
  intro h
  obtain ⟨t, ht, -⟩ := ((h (.alive { offlineState with count := 1 }) rfl).2 _ rfl).1
  cases hthrows.symm.trans ht

end Acu.Delegator
