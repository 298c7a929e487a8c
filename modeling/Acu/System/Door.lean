import Acu.System.Threads
import Mathlib.Data.List.Chain

/-!
# When the door is open

The relay is on only for one and a half seconds behind an admission, and the number that
was reported last is not reported again within six seconds.
-/

namespace Acu.System

open Acu.Core Acu.Core.CMemory Tools Rfid Delegator Attendance Hardware

/-- The call opened the door. -/
def Visit.Opens (v : Visit) : Prop := Effect.pulse ∈ v.effects

/-- The door is unlocked at the microsecond of an admission, and never later than one and a half
seconds after the last one. -/
structure DoorLaw (signedChar : Bool) (cfg : Settings) (s : Terminal) : Prop where
  admits : ∀ v ∈ s.visits, v.Opens ↔ ∃ ei, Admits signedChar cfg v.card ei
  unlocks : ∀ v ∈ s.visits, v.Opens → v.called = s.relay.now → s.relay.output = true
  locks : s.relay.output = true → ∃ v ∈ s.visits, v.Opens ∧ v.called ≤ s.relay.now ∧
    s.relay.now < v.called + 1500000

structure DoorInv (signedChar : Bool) (cfg : Settings) (s : Terminal) : Prop where
  lawful : ∀ v ∈ s.visits, v.Lawful signedChar cfg
  past : ∀ v ∈ s.visits, v.called ≤ s.relay.now
  unlocks : ∀ v ∈ s.visits, v.Opens → v.called = s.relay.now → s.relay.output = true
  ahead : ∀ w ∈ s.relay.waiting, s.relay.now < w.deadline
  /-- While the output is on, a thread waits to switch it off. -/
  ends : s.relay.output = true → ∃ v ∈ s.visits, v.Opens ∧
    ∃ w ∈ s.relay.waiting, w.deadline = v.called + 1500000

section Relay

variable {signedChar : Bool} {cfg : Settings}

theorem Visit.Lawful.opens_iff {v : Visit} (h : v.Lawful signedChar cfg) :
    v.Opens ↔ ∃ ei, Admits signedChar cfg v.card ei := by
  rcases h with ⟨hcount, ei, ts, hadmits, -⟩ | ⟨hcount, hnone, -⟩
  · exact iff_of_true (List.count_pos_iff.mp (by omega)) ⟨ei, hadmits⟩
  · exact iff_of_false (List.count_eq_zero.mp hcount) fun ⟨ei, h⟩ => hnone ei h

theorem Visit.Lawful.opens_iff_sheet {v : Visit} (h : v.Lawful signedChar cfg) :
    v.Opens ↔ v.sheets ≠ [] := by
  rcases h with ⟨hcount, ei, ts, -, hsheets, -⟩ | ⟨hcount, -, hsheets⟩
  · exact iff_of_true (List.count_pos_iff.mp (by omega)) (by simp [hsheets])
  · exact iff_of_false (List.count_eq_zero.mp hcount) (by simp [hsheets])

theorem DoorInv.law {s : Terminal} (h : DoorInv signedChar cfg s) : DoorLaw signedChar cfg s where
  admits v hv := (h.lawful v hv).opens_iff
  unlocks := h.unlocks
  locks hout := by
    obtain ⟨v, hv, hopens, w, hw, hend⟩ := h.ends hout
    exact ⟨v, hv, hopens, h.past v hv, hend ▸ h.ahead w hw⟩

/-- Behind a pulse the output is on, with a thread to switch it off; others are kept that are not
due. -/
theorem pulsed_spec {r : SwitchGpio} (h : ∀ w ∈ r.waiting, r.now < w.deadline) :
    (Terminal.pulsed r).now = r.now ∧ (Terminal.pulsed r).output = true ∧
      (Terminal.pulsed r).waiting = r.waiting ++ [⟨r.created, r.now + 1500000⟩] := by
  have hvalid : (Timer.deadlineMillis r.now 1500).Valid :=
    Timer.deadlineMillis_valid r.now (by decide)
  have hon : r.on 1500 = { r with
      m_timer := some r.created
      waiting := r.waiting ++ [⟨r.created, r.now + 1500000⟩]
      created := r.created + 1
      output := true } := by
    rw [SwitchGpio.on, if_pos hvalid, Timer.deadlineMillis_micros]
    refine expire_of_none_due ?_
    intro w hw
    rcases List.mem_append.mp hw with hw | hw
    · exact h w hw
    · rw [List.mem_singleton.mp hw]
      change r.now < r.now + 1000 * 1500
      omega
  rw [Terminal.pulsed, hon]
  exact ⟨rfl, rfl, rfl⟩

/-- A microsecond in which the output stays on is one in which no thread is due. -/
theorem tick_on {r : SwitchGpio} (h : r.tick.output = true) :
    r.output = true ∧ r.tick.waiting = r.waiting := by
  by_cases hdue : ∃ w ∈ r.waiting, w.deadline ≤ r.now + 1
  · have htick : r.tick = _ := @expire_of_due { r with now := r.now + 1 } hdue
    rw [htick] at h
    cases h
  · have hnone : ∀ w ∈ r.waiting, r.now + 1 < w.deadline := by
      intro w hw
      by_contra hle
      exact hdue ⟨w, hw, Int.not_lt.mp hle⟩
    have htick : r.tick = { r with now := r.now + 1 } :=
      @expire_of_none_due { r with now := r.now + 1 } hnone
    rw [htick] at h ⊢
    exact ⟨h, rfl⟩

end Relay

section Machine

variable {mode : RfidMode} {signedChar : Bool} {cfg : Settings} {acfg : Attendance.Config}

theorem doorInv_visit {s s' : Terminal} {t : Int} {number : Bytes} {c : Card}
    (h : DoorInv signedChar cfg s) (hs : s.onData signedChar cfg t number c = some s') :
    DoorInv signedChar cfg s' := by
  obtain ⟨v, -, -, hcalled, hlawful, hvisits, -, hcase⟩ := Terminal.onData_cases hs
  have hmem {w : Visit} : w ∈ s'.visits ↔ w ∈ s.visits ∨ w = v := by
    rw [hvisits, List.mem_append, List.mem_singleton]
  have hall : ∀ w ∈ s'.visits, w.Lawful signedChar cfg := by
    intro w hw
    rcases hmem.mp hw with hw | rfl
    · exact h.lawful w hw
    · exact hlawful
  rcases hcase with ⟨ts, hsheets, -, hrelay⟩ | ⟨hsheets, -, hrelay⟩
  · have hopens : v.Opens := hlawful.opens_iff_sheet.mpr (by simp [hsheets])
    obtain ⟨hnow, hout, hwaiting⟩ := pulsed_spec h.ahead
    rw [← hrelay] at hnow hout hwaiting
    refine ⟨hall, fun w hw => ?_, fun _ _ _ _ => hout, fun w hw => ?_, fun _ => ?_⟩
    · rw [hnow]
      rcases hmem.mp hw with hw | rfl
      · exact h.past w hw
      · exact Int.le_of_eq hcalled
    · rw [hnow]
      rw [hwaiting] at hw
      rcases List.mem_append.mp hw with hw | hw
      · exact h.ahead w hw
      · rw [List.mem_singleton.mp hw]
        exact Int.lt_add_of_pos_right _ (by decide)
    · refine ⟨v, hmem.mpr (.inr rfl), hopens, ⟨s.relay.created, s.relay.now + 1500000⟩, ?_, ?_⟩
      · rw [hwaiting]
        exact List.mem_append_right _ (List.mem_singleton_self _)
      · rw [hcalled]
  · have hcloses : ¬ v.Opens := by
      rw [hlawful.opens_iff_sheet, hsheets]
      simp
    refine ⟨hall, fun w hw => ?_, fun w hw hopens hnow => ?_, hrelay ▸ h.ahead, fun hout => ?_⟩
    · rw [hrelay]
      rcases hmem.mp hw with hw | rfl
      · exact h.past w hw
      · exact Int.le_of_eq hcalled
    · rw [hrelay] at hnow ⊢
      rcases hmem.mp hw with hw | rfl
      · exact h.unlocks w hw hopens hnow
      · exact absurd hopens hcloses
    · rw [hrelay] at hout ⊢
      obtain ⟨w, hw, hrest⟩ := h.ends hout
      exact ⟨w, hmem.mpr (.inl hw), hrest⟩

theorem doorInv_step (s : Terminal) (l : Label) (s' : Terminal) (h : DoorInv signedChar cfg s)
    (hs : (terminal mode signedChar cfg acfg).step s l = some s') : DoorInv signedChar cfg s' := by
  cases l with
  | tick =>
      obtain rfl := Option.some.inj hs
      have hnow : s.relay.tick.now = s.relay.now + 1 := expire_now _
      refine ⟨h.lawful, fun v hv => ?_, fun v hv _ hcalled => ?_, expire_not_due _, fun hout => ?_⟩
      · have := h.past v hv
        rw [hnow]
        omega
      · have := h.past v hv
        change v.called = s.relay.tick.now at hcalled
        omega
      · obtain ⟨hbefore, hwaiting⟩ := tick_on hout
        obtain ⟨v, hv, hopens, w, hw, hend⟩ := h.ends hbefore
        exact ⟨v, hv, hopens, w, hwaiting ▸ hw, hend⟩
  | round i c =>
      obtain ⟨-, ⟨rfl, -⟩ | ⟨o, number, -, hcall⟩⟩ := Terminal.round_cases hs
      · exact ⟨h.lawful, h.past, h.unlocks, h.ahead, h.ends⟩
      · have hinv : DoorInv signedChar cfg
            { s with reader := SerialRfid.round mode.requestData s.reader i } :=
          ⟨h.lawful, h.past, h.unlocks, h.ahead, h.ends⟩
        exact doorInv_visit hinv hcall
  | act l =>
      obtain ⟨-, store, -, rfl⟩ := Terminal.act_cases hs
      exact ⟨h.lawful, h.past, h.unlocks, h.ahead, h.ends⟩

end Machine

/-- Along every interleaving, with any cards at any times: the door opens for those who may pass,
and it is locked again one and a half seconds later. -/
theorem door_law (mode : RfidMode) (signedChar : Bool) (cfg : Settings)
    (acfg : Attendance.Config) (m_serialnumberBuf : Bytes) (m_bNetworkAvailable : Bool) (now : Int)
    (files : Bytes → Option Bytes) (labels : List Label) :
    (terminal mode signedChar cfg acfg).AllStates (DoorLaw signedChar cfg)
      (.start m_serialnumberBuf m_bNetworkAvailable now files) labels := by
  refine Machine.allStates_of_preserved (fun _ h => h.law) doorInv_step ?_ labels
  exact ⟨fun _ h => (nomatch h), fun _ h => (nomatch h), fun _ h => (nomatch h),
    fun _ h => (nomatch h), fun h => (nomatch h)⟩

/-! ## Reports of one card -/

/-- A number is not reported again within six seconds, unless another one came between. -/
def ReportsApart (s : Terminal) : Prop :=
  s.visits.IsChain fun v w => v.number = w.number → 6 ≤ w.t - v.t

/-- The reader remembers the last report. -/
structure SpacedInv (s : Terminal) : Prop where
  apart : ReportsApart s
  last : ∀ v ∈ s.visits.getLast?, s.reader.reader.remembered = (v.number, v.t)

section Reports

/-- What follows an accepted frame: the same card again, or a report that is remembered. -/
theorem accept_cases (size : Nat) (number : Bytes) (t : Int) (r : Reader) :
    ((accept size number t r).1 = 0 ∧ (accept size number t r).2.remembered = r.remembered) ∨
      ((accept size number t r).1 = 1 ∧ (accept size number t r).2.m_serialnumberBuf = number ∧
        (accept size number t r).2.remembered = (number, t) ∧
        (r.m_serialnumberShadowBuf = number → 6 ≤ t - r.shadowTime)) := by
  simp only [Rfid.accept]
  split
  · exact .inl ⟨rfl, rfl⟩
  next hapart =>
    refine .inr ⟨rfl, rfl, rfl, fun hsame => ?_⟩
    by_contra hlt
    apply hapart
    rw [hsame, strncmpEq, beq_self_eq_true, Bool.and_true, decide_eq_true_eq]
    omega

/-- A round makes a report that is remembered, and none too early; or what is remembered stays. -/
theorem round_remembers (mode : RfidMode) (s : Thread) (i : Round) :
    (∃ o number, (SerialRfid.round mode.requestData s i).reports =
          s.reports ++ [(o, .onData number)] ∧
        (SerialRfid.round mode.requestData s i).reader.remembered = (number, i.t) ∧
        (s.reader.m_serialnumberShadowBuf = number → 6 ≤ i.t - s.reader.shadowTime)) ∨
      ((∀ o number, (SerialRfid.round mode.requestData s i).reports ≠
          s.reports ++ [(o, .onData number)]) ∧
        (SerialRfid.round mode.requestData s i).reader.remembered = s.reader.remembered) := by
  have hsame (o : Rfid.Outcome) (number : Bytes) :
      s.reports ≠ s.reports ++ [(o, .onData number)] := by
    simp
  unfold SerialRfid.round
  split
  · split
    · exact .inr ⟨hsame, rfl⟩
    · split
      next ret r hr =>
        cases ha : mode.accepted i.outcome with
        | none =>
            obtain ⟨rfl, rfl⟩ := request_rejected ha hr
            exact .inr ⟨hsame, rfl⟩
        | some b =>
            rw [request_accepted ha] at hr
            have hcases := accept_cases mode.readerClass.SERIALNUMBER_BUF_SIZE
              (mode.readerClass.number b) i.t s.reader
            rw [Ended.returned.inj hr] at hcases
            rcases hcases with ⟨hret, hkept⟩ | ⟨hret, hnumber, hnew, happart⟩
            · obtain rfl : ret = 0 := hret
              refine .inr ⟨fun o number h => ?_, hkept⟩
              have hreport := List.append_cancel_left h
              cases hreport
            · obtain rfl : ret = 1 := hret
              refine .inl ⟨i.outcome, mode.readerClass.number b, ?_, hnew, happart⟩
              exact congrArg (fun n => s.reports ++ [(i.outcome, Report.onData n)]) hnumber
      · exact .inr ⟨hsame, rfl⟩
      · exact .inr ⟨hsame, rfl⟩
  · exact .inr ⟨hsame, rfl⟩

variable {mode : RfidMode} {signedChar : Bool} {cfg : Settings} {acfg : Attendance.Config}

theorem spacedInv_step (s : Terminal) (l : Label) (s' : Terminal) (h : SpacedInv s)
    (hs : (terminal mode signedChar cfg acfg).step s l = some s') : SpacedInv s' := by
  cases l with
  | tick =>
      obtain rfl := Option.some.inj hs
      exact ⟨h.apart, h.last⟩
  | act l =>
      obtain ⟨-, store, -, rfl⟩ := Terminal.act_cases hs
      exact ⟨h.apart, h.last⟩
  | round i c =>
      obtain ⟨-, hround⟩ := Terminal.round_cases hs
      obtain ⟨o, number, hreport, hnew, hgap⟩ | ⟨hno, hkept⟩ := round_remembers mode s.reader i
      · rcases hround with ⟨-, hnone⟩ | ⟨o', number', hreport', hcall⟩
        · exact absurd hreport (hnone o number)
        · rw [hreport] at hreport'
          cases List.append_cancel_left hreport'
          obtain ⟨v, rfl, ht, -, -, hvisits, hreader, -⟩ := Terminal.onData_cases hcall
          constructor
          · rw [ReportsApart, hvisits]
            refine List.isChain_append.mpr ⟨h.apart, List.isChain_singleton v, ?_⟩
            intro u hu w hw hsame
            obtain rfl : v = w := by simpa using hw
            have hnumber : s.reader.reader.m_serialnumberShadowBuf = u.number :=
              congrArg Prod.fst (h.last u hu)
            have htime : s.reader.reader.shadowTime = u.t := congrArg Prod.snd (h.last u hu)
            rw [ht, ← htime]
            exact hgap (hnumber.trans hsame)
          · rw [hvisits, hreader]
            intro w hw
            obtain rfl : v = w := by simpa using hw
            rw [hnew, ht]
      · rcases hround with ⟨rfl, -⟩ | ⟨o', number', hreport', -⟩
        · exact ⟨h.apart, fun v hv => hkept.trans (h.last v hv)⟩
        · exact absurd hreport' (hno o' number')

end Reports

/-- Along every interleaving and whatever the clock does: the calls for one card are six seconds
apart, unless one for another card comes between them. -/
theorem reports_apart (mode : RfidMode) (signedChar : Bool) (cfg : Settings)
    (acfg : Attendance.Config) (m_serialnumberBuf : Bytes) (m_bNetworkAvailable : Bool) (now : Int)
    (files : Bytes → Option Bytes) (labels : List Label) :
    (terminal mode signedChar cfg acfg).AllStates ReportsApart
      (.start m_serialnumberBuf m_bNetworkAvailable now files) labels := by
  refine Machine.allStates_of_preserved (fun _ h => h.apart) spacedInv_step ?_ labels
  exact ⟨List.isChain_nil, fun _ h => (nomatch h)⟩

end Acu.System
