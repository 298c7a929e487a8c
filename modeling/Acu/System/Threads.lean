import Acu.Attendance.Pending
import Acu.Delegator.OnData
import Acu.Rfid.SameCard

/-!
# The threads at the gate

The reader thread reports a card, opens the door for it in `onData` and inserts its time
sheet; the timer thread uploads the sheets meanwhile; the relay falls back by its own timer.
The steps of the threads, the passing of time and what the reads bring come in any order.
-/

namespace Acu.System

open Acu.Core Acu.Core.CMemory Rfid Delegator Attendance Hardware

/-- The number of the reader thread among those that use `TimeSheetMgr`. -/
abbrev READER : Nat := 0

/-- History: one call of `onData` with the number and clock of its report, the microsecond it
was made in, the calls it made and the time sheets it inserted. -/
structure Visit where
  number : Bytes
  t : Int
  called : Int
  card : Card
  effects : List Effect
  sheets : List TimeSheet

/-- The list of time sheets is that of `store`; `delegator` holds those of one call. -/
structure Terminal where
  reader : Thread
  delegator : MainDelegator
  relay : SwitchGpio
  store : TimeSheetMgr
  visits : List Visit

/-- A microsecond, a round of the reader with what a call of `onData` would find, or a step of
the threads at the time sheets. -/
inductive Label where
  | tick
  | round (i : Round) (c : Card)
  | act (l : UploadLabel)

/-- The calls on the relay. -/
def relayCalls (effects : List Effect) : List Call :=
  effects.filterMap fun
    | .gpio .relay c => some c
    | _ => none

/-- Only the reader thread inserts, and it does not upload. -/
def ofThreads : UploadLabel → Bool
  | .insert .. => false
  | .upload tid _ => tid != READER
  | _ => true

namespace Terminal

section Steps

variable (mode : RfidMode) (signedChar : Bool) (cfg : Settings) (acfg : Attendance.Config)

/-- `onData(number)`, up to where the new time sheet is to be pushed. -/
def onData (s : Terminal) (t : Int) (number : Bytes) (c : Card) : Option Terminal := do
  let c := { c with serialNumber := number }
  let (delegator, effects) ← { s.delegator with m_listTS := [] }.onData signedChar cfg c
  some { s with
    delegator
    relay := (relayCalls effects).foldl (fun r c => (switch.step r (.call c)).getD r) s.relay
    store := delegator.m_listTS.foldl (fun store ts => store.at_ READER (.inserting ts)) s.store
    visits := s.visits ++ [⟨number, t, s.relay.now, c, effects, delegator.m_listTS⟩] }

/-- A round of the reader thread, which has come back from the call before. -/
def round (s : Terminal) (i : Round) (c : Card) : Option Terminal :=
  match s.store.pc READER with
  | .idle =>
      let reader := SerialRfid.round mode.requestData s.reader i
      match reader.reports.drop s.reader.reports.length with
      | (_, .onData number) :: _ => { s with reader }.onData signedChar cfg i.t number c
      | _ => some { s with reader }
  | _ => none

def step (s : Terminal) : Label → Option Terminal
  | .tick => some { s with relay := s.relay.tick }
  | .round i c => s.round mode signedChar cfg i c
  | .act l =>
      if ofThreads l then (s.store.step acfg l).map fun store => { s with store } else none

end Steps

/-- The reader's buffer holds anything, no time sheet waits, and of files there may be any. -/
def start (m_serialnumberBuf : Bytes) (m_bNetworkAvailable : Bool) (now : Int)
    (files : Bytes → Option Bytes) : Terminal where
  reader := ⟨⟨m_serialnumberBuf, [], 0⟩, .running, true, []⟩
  delegator := ⟨false, m_bNetworkAvailable, false, []⟩
  relay := .start now
  store := .start files
  visits := []

end Terminal

def terminal (mode : RfidMode) (signedChar : Bool) (cfg : Settings) (acfg : Attendance.Config) :
    Machine Terminal Label where
  step := Terminal.step mode signedChar cfg acfg

/-! ## What a visit does -/

section Relay

/-- The relay is pulsed, and called in no other way. -/
def OnlyPulses (effects : List Effect) : Prop :=
  relayCalls effects = List.replicate (effects.count Effect.pulse) (.on 1500)

theorem OnlyPulses.append {as bs : List Effect} (has : OnlyPulses as) (hbs : OnlyPulses bs) :
    OnlyPulses (as ++ bs) := by
  rw [OnlyPulses, relayCalls, List.filterMap_append, List.count_append, List.replicate_add]
  exact congrArg₂ (· ++ ·) has hbs

theorem onlyPulses_refused (cfg : Settings) (msg : Bytes) :
    OnlyPulses (MainDelegator.refused cfg msg) := by
  unfold MainDelegator.refused
  cases cfg.m_bSound <;> rfl

theorem onlyPulses_admitted (cfg : Settings) (msg : Bytes) :
    OnlyPulses (MainDelegator.admitted cfg msg) := by
  unfold MainDelegator.admitted
  cases cfg.m_bSound <;> rfl

theorem onlyPulses_capture (cfg : Settings) (picture : Option Bytes) :
    OnlyPulses (MainDelegator.capture cfg picture).1 := by
  unfold MainDelegator.capture
  split
  · split <;> rfl
  · rfl

theorem onlyPulses_network (val : Bool) (s : MainDelegator) :
    OnlyPulses (s.displayNetworkStatus val).2 := by
  unfold MainDelegator.displayNetworkStatus
  split
  · cases val <;> rfl
  · rfl

theorem onlyPulses_decided (cfg : Settings) (c : Card) (ret : Bool) (ei : Employee.EmployeeInfo)
    (s : MainDelegator) : OnlyPulses (s.decideEntry cfg c ret ei).2 := by
  have hshown (img : Option Bytes) (size : Int) (co name pin : Bytes) :
      OnlyPulses [.onEmployeeInfo co name pin img size] := rfl
  unfold MainDelegator.decideEntry
  split
  · exact (hshown none 0 [] [] []).append (onlyPulses_refused cfg _)
  · dsimp only
    split
    · exact (hshown _ _ _ _ _).append (onlyPulses_refused cfg _)
    · exact (hshown _ _ _ _ _).append
        ((onlyPulses_admitted cfg _).append (onlyPulses_capture cfg c.picture))

theorem onlyPulses_onData {signedChar : Bool} {cfg : Settings} {s t : MainDelegator} {c : Card}
    {effects : List Effect} (h : s.onData signedChar cfg c = some (t, effects)) :
    OnlyPulses effects := by
  obtain ⟨⟨ret, ei, bServerActive⟩, -, h⟩ := Option.bind_eq_some_iff.mp h
  have hdecided := onlyPulses_decided cfg c ret ei { s with m_bProcessingRfidData := true }
  cases hd : MainDelegator.decideEntry cfg c ret ei { s with m_bProcessingRfidData := true } with
  | mk s₁ decided =>
  cases hn : (if bServerActive ≤ 0 then s₁.displayNetworkStatus (bServerActive != 0)
      else (s₁, [])) with
  | mk s₂ status =>
  simp only [hd, hn, Option.some.injEq, Prod.mk.injEq] at h
  rcases h with ⟨-, rfl⟩
  rw [hd] at hdecided
  have hstatus : OnlyPulses status := by
    split at hn
    · have hnetwork := onlyPulses_network (bServerActive != 0) s₁
      rwa [hn] at hnetwork
    · cases hn
      rfl
  have hopening : OnlyPulses [.stopPlaying, .gpio .greenLed .off, .gpio .redLed .off,
      .onMessage "RfidNo" c.serialNumber] := rfl
  exact (hopening.append hdecided).append hstatus

end Relay

/-- The relay is pulsed once and one time sheet inserted for a record that lets its holder pass,
and neither for any other. -/
def Visit.Lawful (signedChar : Bool) (cfg : Settings) (v : Visit) : Prop :=
  (v.effects.count Effect.pulse = 1 ∧ ∃ ei ts, Admits signedChar cfg v.card ei ∧
      v.sheets = [ts] ∧ ts.m_lab_no = ei.lab_no ∧ ts.m_utype = ei.utype) ∨
    (v.effects.count Effect.pulse = 0 ∧ (∀ ei, ¬ Admits signedChar cfg v.card ei) ∧ v.sheets = [])

namespace Terminal

section Cases

variable {mode : RfidMode} {signedChar : Bool} {cfg : Settings} {acfg : Attendance.Config}
  {s s' : Terminal}

/-- The relay behind a pulse. -/
def pulsed (r : SwitchGpio) : SwitchGpio := { r.on 1500 with latest := some (.on 1500, r.now) }

/-- Everything a call of `onData` does. -/
theorem onData_cases {t : Int} {number : Bytes} {c : Card}
    (h : s.onData signedChar cfg t number c = some s') :
    ∃ v : Visit, v.number = number ∧ v.t = t ∧ v.called = s.relay.now ∧
      v.Lawful signedChar cfg ∧ s'.visits = s.visits ++ [v] ∧ s'.reader = s.reader ∧
      ((∃ ts, v.sheets = [ts] ∧ s'.store = s.store.at_ READER (.inserting ts) ∧
          s'.relay = pulsed s.relay) ∨
        (v.sheets = [] ∧ s'.store = s.store ∧ s'.relay = s.relay)) := by
  obtain ⟨⟨delegator, effects⟩, hcall, h⟩ := Option.bind_eq_some_iff.mp h
  obtain rfl := Option.some.inj h
  have hrelay := onlyPulses_onData hcall
  obtain ⟨-, ⟨hcount, ei, ts, hadmits, hlist, hlab, hutype⟩ | ⟨hcount, hnone, hlist⟩⟩ :=
    onData_spec hcall
  · have hsheets : delegator.m_listTS = [ts] := hlist
    refine ⟨_, rfl, rfl, rfl, .inl ⟨hcount, ei, ts, hadmits, hsheets, hlab, hutype⟩, rfl, rfl,
      .inl ⟨ts, hsheets, ?_, ?_⟩⟩
    · simp only [hsheets, List.foldl_cons, List.foldl_nil]
    · rw [OnlyPulses, hcount] at hrelay
      simp only [hrelay]
      rfl
  · have hsheets : delegator.m_listTS = [] := hlist
    refine ⟨_, rfl, rfl, rfl, .inr ⟨hcount, hnone, hsheets⟩, rfl, rfl, .inr ⟨hsheets, ?_, ?_⟩⟩
    · simp only [hsheets, List.foldl_nil]
    · rw [OnlyPulses, hcount] at hrelay
      simp only [hrelay]
      rfl

/-- A round that reports no new card ends with its request; one that does goes on with the call. -/
theorem round_cases {i : Round} {c : Card} (h : s.round mode signedChar cfg i c = some s') :
    s.store.pc READER = .idle ∧
      (s' = { s with reader := SerialRfid.round mode.requestData s.reader i } ∧
          (∀ o number, (SerialRfid.round mode.requestData s.reader i).reports ≠
            s.reader.reports ++ [(o, .onData number)]) ∨
        ∃ o number, (SerialRfid.round mode.requestData s.reader i).reports =
            s.reader.reports ++ [(o, .onData number)] ∧
          { s with reader := SerialRfid.round mode.requestData s.reader i }.onData signedChar cfg
            i.t number c = some s') := by
  unfold round at h
  split at h
  next hidle =>
    refine ⟨hidle, ?_⟩
    dsimp only at h
    split at h
    next o number rest hdrop =>
      rcases @round_reports mode.requestData s.reader i with
        heq | ⟨-, -, ret, r', report, -, -, heq⟩
      · rw [heq, List.drop_length] at hdrop
        cases hdrop
      · rw [heq, List.drop_left] at hdrop
        cases hdrop
        exact .inr ⟨_, number, heq, h⟩
    next hno =>
      refine .inl ⟨(Option.some.inj h).symm, fun o number heq => ?_⟩
      exact hno o number [] (by rw [heq, List.drop_left])
  · cases h

theorem act_cases {l : UploadLabel}
    (h : (terminal mode signedChar cfg acfg).step s (.act l) = some s') :
    ofThreads l = true ∧ ∃ store, (uploads acfg).step s.store l = some store ∧
      s' = { s with store } := by
  simp only [terminal, step] at h
  split at h
  next hl =>
    obtain ⟨store, hstore, rfl⟩ := Option.map_eq_some_iff.mp h
    exact ⟨hl, store, hstore, rfl⟩
  · cases h

end Cases

end Terminal

end Acu.System
