import Acu.Attendance.Record
import Acu.Core.Machine
import Acu.Delegator.Validate
import Acu.Hardware.SwitchGpio

/-!
# A card at the gate

`MainDelegator::onData` as a function of what the calls it makes give back, with
the calls it makes on the listener, the sounds, the lamps and the relay in their
order.
-/

namespace Acu.Delegator

open Acu.Core Tools Employee Attendance Hardware

/-! ## The code -/

/-- The outputs of the gate. -/
inductive Output where
  | greenLed
  | redLed
  | yellowLed
  | relay
  deriving DecidableEq, Repr

inductive Effect where
  | onMessage (tag : String) (data : Bytes)
  | onEmployeeInfo (CoName Name PinNo : Bytes) (img_buf : Option Bytes) (img_sz : Int)
  | play (filename : String)
  | stopPlaying
  | gpio (output : Output) (c : Call)
  | blink (output : Output) (arr : List Int) (repeats : Bool)
  | savePicture (img : Bytes)
  deriving DecidableEq, Repr

/-- `bInitialized` is the static of `displayNetworkStatus`. -/
structure MainDelegator where
  m_bProcessingRfidData : Bool
  m_bNetworkAvailable : Bool
  bInitialized : Bool
  m_listTS : List TimeSheet
  deriving DecidableEq, Repr

/-- One call of `onData`: its argument, and what the calls it makes find: the database at
that time, the reply of the server, the new record's block, the day, the picture of the
camera, if it delivers one, and the local time. -/
structure Card where
  serialNumber : Bytes
  m_employInfoMrg : EmployeeInfoMgr
  reply : Except Web.WebExcept (Option Bytes)
  block : Uninit
  today : Date
  picture : Option Bytes
  now : Tm

namespace MainDelegator

def displayNetworkStatus (val : Bool) (s : MainDelegator) : MainDelegator × List Effect :=
  if !s.bInitialized || val != s.m_bNetworkAvailable then
    ({ s with m_bNetworkAvailable := val, bInitialized := true },
      if val then [.onMessage "Server" (ascii "Server ON"), .gpio .yellowLed .off]
      else [.onMessage "Server" (ascii "Server OFF"), .blink .yellowLed [1000, 1000] true])
  else (s, [])

/-- `TimeSheetMgr::insert`. -/
def insert (s : MainDelegator) (now : Tm) (lab_no : Bytes) (utype : UInt8) (img : Bytes) :
    MainDelegator :=
  { s with m_listTS := s.m_listTS ++ [.new now lab_no utype img] }

/-- The statements of both refusals. -/
def refused (cfg : Settings) (msg : Bytes) : List Effect :=
  (if cfg.m_bSound then [.play "SoundFiles/fail.wav"] else []) ++
    [.gpio .redLed (.on 1500), .onMessage "Result" (ascii "FAIL"), .onMessage "Msg" msg]

def admitted (cfg : Settings) (msg : Bytes) : List Effect :=
  (if cfg.m_bSound then [.play "SoundFiles/ok.wav"] else []) ++
    [.gpio .greenLed (.on 1500), .gpio .relay (.on 1500), .onMessage "Msg" msg,
      .onMessage "Result" (ascii "OK")]

/-- The picture that goes with the time sheet; without one `imgBuf` and `imgLength` stay zero. -/
def capture (cfg : Settings) (picture : Option Bytes) : List Effect × Bytes :=
  match cfg.m_bCapture, picture with
  | true, some img => (if cfg.m_bSavePictureFile then [.savePicture img] else [], img)
  | _, _ => ([], [])

/-- The part of `onData` between `getInfo` and the label `error`. -/
def decideEntry (cfg : Settings) (c : Card) (ret : Bool) (ei : EmployeeInfo) (s : MainDelegator) :
    MainDelegator × List Effect :=
  if !ret then (s, .onEmployeeInfo [] [] [] none 0 :: refused cfg (ascii "NO DATA"))
  else
    let shown := Effect.onEmployeeInfo ei.company_name ei.lab_name ei.pin_no ei.img_buf ei.img_size
    let (valid, msg) := checkValidate cfg c.today ei
    if !valid then (s, shown :: refused cfg msg)
    else
      let (saved, img) := capture cfg c.picture
      (s.insert c.now ei.lab_no ei.utype img, shown :: (admitted cfg msg ++ saved))

/-- `getInfo` as `onData` calls it. -/
def obtain (signedChar : Bool) (cfg : Settings) (c : Card) :
    Option (Bool × EmployeeInfo × Int) :=
  c.m_employInfoMrg.getInfo signedChar cfg.employee c.serialNumber c.reply
    (EmployeeInfo.new c.block) (-1)

/-- `onData`: the state afterwards and the calls in their order; `(bool)bServerActive` is
true for the unknown state -1 as well. -/
def onData (signedChar : Bool) (cfg : Settings) (s : MainDelegator) (c : Card) :
    Option (MainDelegator × List Effect) := do
  let s := { s with m_bProcessingRfidData := true }
  let opening := [.stopPlaying, .gpio .greenLed .off, .gpio .redLed .off,
    .onMessage "RfidNo" c.serialNumber]
  let (ret, ei, bServerActive) ← obtain signedChar cfg c
  let (s, effects) := s.decideEntry cfg c ret ei
  let (s, status) :=
    if bServerActive ≤ 0 then s.displayNetworkStatus (bServerActive != 0) else (s, [])
  some ({ s with m_bProcessingRfidData := false }, opening ++ effects ++ status)

end MainDelegator

/-- Sequential calls. -/
def gate (signedChar : Bool) (cfg : Settings) : Machine MainDelegator Card where
  step s c := (s.onData signedChar cfg c).map Prod.fst

/-! ## What a call does -/

section Calls

variable {signedChar : Bool} {cfg : Settings} {s t : MainDelegator} {c : Card}
  {effects : List Effect}

/-- The relay is switched on for one and a half seconds. -/
abbrev Effect.pulse : Effect := .gpio .relay (.on 1500)

theorem displayNetworkStatus_keeps (val : Bool) (s : MainDelegator) :
    (s.displayNetworkStatus val).1.m_listTS = s.m_listTS ∧
      Effect.pulse ∉ (s.displayNetworkStatus val).2 := by
  unfold MainDelegator.displayNetworkStatus
  split
  · cases val with
    | true => exact ⟨rfl, by simp [Effect.pulse]⟩
    | false => exact ⟨rfl, by simp [Effect.pulse]⟩
  · exact ⟨rfl, List.not_mem_nil⟩

theorem pulse_not_mem_refused (cfg : Settings) (msg : Bytes) :
    Effect.pulse ∉ MainDelegator.refused cfg msg := by
  unfold MainDelegator.refused
  cases cfg.m_bSound with
  | true => simp [Effect.pulse]
  | false => simp [Effect.pulse]

theorem count_pulse_admitted (cfg : Settings) (msg : Bytes) :
    (MainDelegator.admitted cfg msg).count Effect.pulse = 1 := by
  unfold MainDelegator.admitted
  cases cfg.m_bSound with
  | true => simp [Effect.pulse]
  | false => simp [Effect.pulse]

theorem pulse_not_mem_capture (cfg : Settings) (picture : Option Bytes) :
    Effect.pulse ∉ (MainDelegator.capture cfg picture).1 := by
  unfold MainDelegator.capture
  split
  · split
    · simp [Effect.pulse]
    · exact List.not_mem_nil
  · exact List.not_mem_nil

/-- The decision: a record that may pass pulses the relay once and inserts one time sheet,
with or without a picture; anything else does neither. -/
theorem decideEntry_spec (cfg : Settings) (c : Card) (ret : Bool) (ei : EmployeeInfo)
    (s : MainDelegator) :
    (ret = true ∧ MayPass cfg c.today ei ∧
      (s.decideEntry cfg c ret ei).2.count Effect.pulse = 1 ∧
      ∃ img, (s.decideEntry cfg c ret ei).1 = s.insert c.now ei.lab_no ei.utype img) ∨
    (¬ (ret = true ∧ MayPass cfg c.today ei) ∧
      (s.decideEntry cfg c ret ei).2.count Effect.pulse = 0 ∧
      (s.decideEntry cfg c ret ei).1 = s) := by
  unfold MainDelegator.decideEntry
  cases ret with
  | false =>
      refine .inr ⟨fun h => Bool.false_ne_true h.1, ?_, rfl⟩
      rw [List.count_eq_zero]
      simp [Effect.pulse, pulse_not_mem_refused]
  | true =>
      cases hv : checkValidate cfg c.today ei with
      | mk valid msg =>
          cases valid with
          | false =>
              refine .inr ⟨fun h => ?_, ?_, rfl⟩
              · have hpass := (checkValidate_iff cfg c.today ei).mpr h.2
                rw [hv] at hpass
                cases hpass
              · rw [List.count_eq_zero]
                simp [Effect.pulse, pulse_not_mem_refused]
          | true =>
              have hpass : MayPass cfg c.today ei := by
                rw [← checkValidate_iff, hv]
              refine .inl ⟨rfl, hpass, ?_, _, rfl⟩
              have hcapture := List.count_eq_zero.mpr (pulse_not_mem_capture cfg c.picture)
              simp [List.count_append, count_pulse_admitted, hcapture]

/-- A call returns exactly when `getInfo` does. -/
theorem onData_returns_iff (signedChar : Bool) (cfg : Settings) (s : MainDelegator) (c : Card) :
    (∃ r, s.onData signedChar cfg c = some r) ↔
      ∃ r, MainDelegator.obtain signedChar cfg c = some r := by
  unfold MainDelegator.onData
  cases MainDelegator.obtain signedChar cfg c with
  | none => exact iff_of_false (fun ⟨_, h⟩ => nomatch h) (fun ⟨_, h⟩ => nomatch h)
  | some r => exact iff_of_true ⟨_, rfl⟩ ⟨r, rfl⟩

/-- The record that the call obtained lets its holder pass. -/
def Admits (signedChar : Bool) (cfg : Settings) (c : Card) (ei : EmployeeInfo) : Prop :=
  (∃ active, MainDelegator.obtain signedChar cfg c = some (true, ei, active)) ∧
    MayPass cfg c.today ei

/-- A call that returns pulses the relay once and appends one time sheet of the record, or
does neither; either way it is no longer processing. -/
theorem onData_spec (h : s.onData signedChar cfg c = some (t, effects)) :
    t.m_bProcessingRfidData = false ∧
    ((effects.count Effect.pulse = 1 ∧ ∃ ei ts, Admits signedChar cfg c ei ∧
        t.m_listTS = s.m_listTS ++ [ts] ∧ ts.m_lab_no = ei.lab_no ∧ ts.m_utype = ei.utype) ∨
      (effects.count Effect.pulse = 0 ∧ (∀ ei, ¬ Admits signedChar cfg c ei) ∧
        t.m_listTS = s.m_listTS)) := by
  obtain ⟨⟨ret, ei, bServerActive⟩, hobtain, h⟩ := Option.bind_eq_some_iff.mp h
  cases hd : MainDelegator.decideEntry cfg c ret ei { s with m_bProcessingRfidData := true } with
  | mk s₁ decided =>
  cases hn : (if bServerActive ≤ 0 then s₁.displayNetworkStatus (bServerActive != 0)
      else (s₁, [])) with
  | mk s₂ status =>
  simp only [hd, hn, Option.some.injEq, Prod.mk.injEq] at h
  rcases h with ⟨rfl, rfl⟩
  have hstatus : s₂.m_listTS = s₁.m_listTS ∧ Effect.pulse ∉ status := by
    split at hn
    · have hkeeps := displayNetworkStatus_keeps (bServerActive != 0) s₁
      rw [hn] at hkeeps
      exact hkeeps
    · cases hn
      exact ⟨rfl, List.not_mem_nil⟩
  have hcount : ∀ opening : List Effect, Effect.pulse ∉ opening →
      (opening ++ decided ++ status).count Effect.pulse = decided.count Effect.pulse := by
    intro opening hopening
    rw [List.count_append, List.count_append, List.count_eq_zero.mpr hopening,
      List.count_eq_zero.mpr hstatus.2, Nat.zero_add, Nat.add_zero]
  have hopening : Effect.pulse ∉ [.stopPlaying, .gpio .greenLed .off, .gpio .redLed .off,
      .onMessage "RfidNo" c.serialNumber] := by simp [Effect.pulse]
  refine ⟨rfl, ?_⟩
  rw [hcount _ hopening]
  have hspec := decideEntry_spec cfg c ret ei { s with m_bProcessingRfidData := true }
  rw [hd] at hspec
  rcases hspec with ⟨hret, hpass, hpulse, img, hs₁⟩ | ⟨hno, hpulse, hs₁⟩
  · subst hret
    refine .inl ⟨hpulse, ei, .new c.now ei.lab_no ei.utype img, ⟨⟨_, hobtain⟩, hpass⟩, ?_, rfl, rfl⟩
    have hlist := congrArg MainDelegator.m_listTS hs₁
    exact hstatus.1.trans hlist
  · have hlist := congrArg MainDelegator.m_listTS hs₁
    refine .inr ⟨hpulse, ?_, hstatus.1.trans hlist⟩
    rintro ei' ⟨⟨active, hobtain'⟩, hpass⟩
    cases hobtain.symm.trans hobtain'
    exact hno ⟨rfl, hpass⟩

end Calls

/-- The law of one call: it returns when `getInfo` does, it pulses the relay exactly when the
record it obtained lets its holder pass, it appends one time sheet of that record exactly
then and none otherwise, and it leaves the flag down. -/
structure EntryLaw (signedChar : Bool) (cfg : Settings) (s : MainDelegator) (c : Card) : Prop where
  returns : (∃ r, s.onData signedChar cfg c = some r) ↔
    ∃ r, MainDelegator.obtain signedChar cfg c = some r
  pulses : ∀ t effects, s.onData signedChar cfg c = some (t, effects) →
    (effects.count Effect.pulse ≤ 1 ∧
      (Effect.pulse ∈ effects ↔ ∃ ei, Admits signedChar cfg c ei))
  inserts : ∀ t effects ei, s.onData signedChar cfg c = some (t, effects) →
    Admits signedChar cfg c ei → ∃ ts, t.m_listTS = s.m_listTS ++ [ts] ∧
      ts.m_lab_no = ei.lab_no ∧ ts.m_utype = ei.utype
  spares : ∀ t effects, s.onData signedChar cfg c = some (t, effects) →
    Effect.pulse ∉ effects → t.m_listTS = s.m_listTS
  flag : ∀ t effects, s.onData signedChar cfg c = some (t, effects) →
    t.m_bProcessingRfidData = false

theorem entryLaw (signedChar : Bool) (cfg : Settings) (s : MainDelegator) (c : Card) :
    EntryLaw signedChar cfg s c where
  returns := onData_returns_iff signedChar cfg s c
  pulses t effects h := by
    obtain ⟨_, ⟨hcount, ei, ts, hadmits, _⟩ | ⟨hcount, hnone, _⟩⟩ := onData_spec h
    · refine ⟨Nat.le_of_eq hcount, iff_of_true ?_ ⟨ei, hadmits⟩⟩
      exact List.count_pos_iff.mp (by omega)
    · refine ⟨by omega, iff_of_false (List.count_eq_zero.mp hcount) ?_⟩
      exact fun ⟨ei, hadmits⟩ => hnone ei hadmits
  inserts t effects ei h hadmits := by
    obtain ⟨_, ⟨_, ei', ts, hadmits', hts⟩ | ⟨_, hnone, _⟩⟩ := onData_spec h
    · rcases hadmits with ⟨⟨active, hobtain⟩, _⟩
      rcases hadmits' with ⟨⟨active', hobtain'⟩, _⟩
      cases hobtain.symm.trans hobtain'
      exact ⟨ts, hts⟩
    · exact absurd hadmits (hnone ei)
  spares t effects h hno := by
    obtain ⟨_, ⟨hcount, _⟩ | ⟨_, _, hts⟩⟩ := onData_spec h
    · exact absurd (List.count_pos_iff.mp (by omega)) hno
    · exact hts
  flag t effects h := (onData_spec h).1

/-- Along every run of calls from a gate that is not processing, whatever the settings, the
server, the database and the camera do, every call keeps the law and the flag is down
between the calls. -/
theorem gate_keeps_entryLaw (signedChar : Bool) (cfg : Settings) (s : MainDelegator)
    (cards : List Card) :
    (gate signedChar cfg).AllStates (fun s => s.m_bProcessingRfidData = false)
        { s with m_bProcessingRfidData := false } cards ∧
      (gate signedChar cfg).AllSteps (EntryLaw signedChar cfg)
        { s with m_bProcessingRfidData := false } cards := by
  constructor
  · refine Machine.allStates_of_preserved
      (I := fun s : MainDelegator => s.m_bProcessingRfidData = false)
      (fun _ h => h) (fun s c t _ h => ?_) rfl cards
    obtain ⟨⟨t, effects⟩, hcall, rfl⟩ := Option.map_eq_some_iff.mp h
    exact (onData_spec hcall).1
  · exact Machine.allSteps_of_forall (fun s c => entryLaw signedChar cfg s c) _ cards

end Acu.Delegator
