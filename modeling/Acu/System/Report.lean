import Acu.System.Admission
import Acu.Web.FormBody

/-!
# What the server is told of an entry

The record that the server gave of a card is shown and decided on; for an entry its number
comes back to the server in the body of a time sheet, with the time and the picture.
-/

namespace Acu.System

open Acu.Core Acu.Core.CMemory Tools Employee Attendance Web Delegator

/-! ## A call of `onData` -/

section Calls

variable {signedChar : Bool} {cfg : Settings} {c : Card} {ei : EmployeeInfo} {active : Int}

/-- The call goes on with what it obtained: its effects hold those of the decision, and the list
is the one that the decision leaves. -/
theorem onData_obtained {ret : Bool} (s : MainDelegator)
    (h : MainDelegator.obtain signedChar cfg c = some (ret, ei, active)) :
    ∃ t before behind, s.onData signedChar cfg c = some (t, before ++
        (MainDelegator.decideEntry cfg c ret ei { s with m_bProcessingRfidData := true }).2 ++
        behind) ∧
      t.m_listTS =
        (MainDelegator.decideEntry cfg c ret ei
          { s with m_bProcessingRfidData := true }).1.m_listTS := by
  unfold MainDelegator.onData
  cases hd : MainDelegator.decideEntry cfg c ret ei { s with m_bProcessingRfidData := true } with
  | mk s₁ decided =>
  simp only [h, hd, Option.bind_eq_bind, Option.bind_some]
  by_cases hactive : active ≤ 0
  · rw [if_pos hactive]
    have hkeeps := displayNetworkStatus_keeps (active != 0) s₁
    exact ⟨_, _, _, rfl, hkeeps.1⟩
  · rw [if_neg hactive]
    exact ⟨_, _, _, rfl, rfl⟩

/-- The picture that goes with an entry; there may be none. -/
def pictureOf (cfg : Settings) (c : Card) : Bytes := (MainDelegator.capture cfg c.picture).2

/-- Of what was not found nothing is shown, and nothing is inserted. -/
theorem decideEntry_unknown (s : MainDelegator) :
    .onEmployeeInfo [] [] [] none 0 ∈ (s.decideEntry cfg c false ei).2 ∧
      (s.decideEntry cfg c false ei).1.m_listTS = s.m_listTS :=
  ⟨List.mem_cons_self, rfl⟩

/-- A record is shown, and gets its time sheet where it may pass. -/
theorem decideEntry_record (s : MainDelegator) :
    .onEmployeeInfo ei.company_name ei.lab_name ei.pin_no ei.img_buf ei.img_size ∈
        (s.decideEntry cfg c true ei).2 ∧
      (MayPass cfg c.today ei → (s.decideEntry cfg c true ei).1.m_listTS =
        s.m_listTS ++ [.new c.now ei.lab_no ei.utype (pictureOf cfg c)]) ∧
      (¬ MayPass cfg c.today ei → (s.decideEntry cfg c true ei).1.m_listTS = s.m_listTS) := by
  rw [← checkValidate_iff]
  unfold MainDelegator.decideEntry
  cases hvalid : checkValidate cfg c.today ei with
  | mk valid msg =>
      cases valid with
      | false =>
          refine ⟨List.mem_cons_self, fun h => absurd h Bool.false_ne_true, fun _ => ?_⟩
          simp
      | true =>
          refine ⟨?_, fun _ => ?_, fun h => absurd rfl h⟩
          · simp
          · simp [MainDelegator.insert, pictureOf]

end Calls

/-! ## The body of a time sheet -/

/-- What the server finds in the body of a command, each name once. -/
def Hears (labNo : Bytes) (utype : UInt8) (now : Tm) (picture : Bytes)
    (cmd : Option (Bytes × Int)) : Prop :=
  ∃ fs, DecodesTo cmd fs ∧ (fs.map Prod.fst).Nodup ∧ (ascii "sLabNo", labNo) ∈ fs ∧
    (ascii "sUtype", [utype]) ∈ fs ∧ (ascii "sInTime", now.text) ∈ fs ∧
    (ascii "sPhotoImage", Base64.base64e2_http picture) ∈ fs

/-- The command of a time sheet of which every value is readable tells it. -/
theorem sheet_told {labNo : Bytes} {utype : UInt8} {now : Tm} {picture : Bytes} {a : SheetArgs}
    (ha : a.timeSheet = .new now labNo utype picture) (hread : a.Readable)
    (memory : Nat → UInt8) (itoaBuf : CharArray 32) (m_serverIP : ServerIP) :
    Hears labNo utype now picture (WebService.timeSheetCmd memory itoaBuf m_serverIP a) := by
  obtain ⟨hlab, hutype, htime, hphoto⟩ := TimeSheet.mk.injEq .. ▸ ha
  have hencoded : a.photo = Base64.base64e2_http picture := by
    rw [← hphoto, SheetArgs.photo]
    cases a.imageBuf with
    | none => rfl
    | some img => rfl
  refine ⟨a.fields, ?_, ?_, ?_, ?_, ?_, ?_⟩
  · rw [decodesTo_iff_body memory itoaBuf m_serverIP hread.fits, SheetArgs.decode_body_iff]
    exact ⟨⟨hread.inOut, hread.utype⟩, hread.clean⟩
  · change [ascii "sMemcoCd", ascii "sSiteCd", ascii "sLabNo", ascii "sInOut", ascii "sGateNo",
      ascii "sGateLoc", ascii "sUtype", ascii "sAttendGb", ascii "sEventfunctionkey",
      ascii "sInTime", ascii "sPhotoImage"].Nodup
    decide
  · rw [← hlab]
    simp [SheetArgs.fields]
  · rw [← hutype]
    simp [SheetArgs.fields]
  · rw [← htime]
    simp [SheetArgs.fields]
  · rw [← hencoded]
    simp [SheetArgs.fields]

/-! ## From the row to the server -/

/-- What a call makes of the row that decides: it shows the row's names, and for a holder who may
pass it inserts a time sheet that tells the server the row's number and type. -/
def FollowsRow (cfg : Settings) (c : Card) (s t : MainDelegator) (effects : List Effect) :
    Option Row → Prop
  | none => .onEmployeeInfo [] [] [] none 0 ∈ effects ∧ t.m_listTS = s.m_listTS
  | some row =>
      (∃ img size, .onEmployeeInfo ((row.value .CO_NM).getD []) ((row.value .LAB_NM).getD [])
        ((row.value .PIN_NO).getD []) img size ∈ effects) ∧
      (¬ RowMayPass cfg c.today row → t.m_listTS = s.m_listTS) ∧
      (RowMayPass cfg c.today row → ∃ utype, (row.value .UTYPE).bind List.head? = some utype ∧
        t.m_listTS = s.m_listTS ++
          [.new c.now ((row.value .LAB_NO).getD []) utype (pictureOf cfg c)] ∧
        ∀ (a : SheetArgs) (memory : Nat → UInt8) (itoaBuf : CharArray 32)
          (m_serverIP : ServerIP),
          a.timeSheet = .new c.now ((row.value .LAB_NO).getD []) utype (pictureOf cfg c) →
          a.Readable → Hears ((row.value .LAB_NO).getD []) utype c.now (pictureOf cfg c)
            (WebService.timeSheetCmd memory itoaBuf m_serverIP a))

theorem Obtains.follows {signedChar : Bool} {cfg : Settings} {c : Card} {found : Option Row}
    (h : Obtains signedChar cfg c found) (s : MainDelegator) :
    ∃ t effects, s.onData signedChar cfg c = some (t, effects) ∧
      FollowsRow cfg c s t effects found := by
  cases found with
  | none =>
      obtain ⟨ei, active, hobtain⟩ := h
      obtain ⟨t, before, behind, hcall, hlist⟩ := onData_obtained s hobtain
      obtain ⟨hshown, hsame⟩ :=
        @decideEntry_unknown cfg c ei { s with m_bProcessingRfidData := true }
      refine ⟨t, _, hcall, ?_, hlist.trans hsame⟩
      exact List.mem_append_left _ (List.mem_append_right _ hshown)
  | some row =>
      obtain ⟨ei, active, hobtain, hreads⟩ := h
      obtain ⟨t, before, behind, hcall, hlist⟩ := onData_obtained s hobtain
      obtain ⟨hshown, hpass, hrefused⟩ :=
        @decideEntry_record cfg c ei { s with m_bProcessingRfidData := true }
      rw [hreads.company_name, hreads.lab_name, hreads.pin_no] at hshown
      rw [hreads.passes, hreads.lab_no] at hpass
      rw [hreads.passes] at hrefused
      refine ⟨t, _, hcall, ⟨_, _, List.mem_append_left _ (List.mem_append_right _ hshown)⟩,
        fun h => hlist.trans (hrefused h), fun h => ?_⟩
      refine ⟨ei.utype, hreads.utype.symm, hlist.trans (hpass h), ?_⟩
      intro a memory itoaBuf m_serverIP ha hread
      exact sheet_told ha hread memory itoaBuf m_serverIP

/-- The time sheet of the visitor, in the request that carries it. -/
def visitorArgs : SheetArgs :=
  { WebService.entryArgs with
    sLabNo := ⟨ascii "LM00000811", by decide⟩
    cUtype := 67
    sInTime := ⟨ascii "2016-01-01 09:00:00", by decide⟩
    imageBuf := none }

end Acu.System
