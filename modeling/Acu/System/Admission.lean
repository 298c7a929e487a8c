import Acu.Delegator.OnData
import Acu.Delegator.OnlineOffline
import Acu.System.Database

/-!
# The records of the server at the gate

A card is let in by what the server says of its number: the record of a reply, or, where it is
not asked or does not answer, the first record with the number in the database it last gave.
-/

namespace Acu.System

open Acu.Core Acu.Core.CMemory Tools Employee EmployeeInfoMgr Web Delegator

/-! ## What decides -/

/-- The record says that its holder is at work, and is of type C or may enter this zone today. -/
def RowMayPass (cfg : Settings) (today : Date) (row : Row) : Prop :=
  row.value .IN_OUT_GB = some (ascii "0002") ∧
    ((row.value .UTYPE).bind List.head? = some 67 ∨
      checkZone cfg ((row.value .ZONE_CD).getD []) = true ∧
        WorksOn today ((row.value .ENT_CO_YMD).map calendarDay)
          ((row.value .RTR_CO_YMD).map calendarDay))

def HasNumber (sn : Bytes) (row : Row) : Prop := row.value .RFID_CAR = some sn

instance (sn : Bytes) : DecidablePred (HasNumber sn) :=
  fun row => inferInstanceAs (Decidable (row.value .RFID_CAR = some sn))

/-- One request for the record of a card, answered with a body. -/
structure Request (cfg : Employee.Config) (c : Card) (body : Bytes) where
  env : CallEnv
  wa : Wa
  disk : Disk String
  command : WebService.rfidInfoSelectWa cfg.m_serverIP cfg.m_sMemcoCd cfg.m_sSiteCd
    c.serialNumber env = some wa
  reaches : WebApi.beforeParsing wa.m_cmd wa.m_cmd_offset env.sys = some .parsing
  del : Delivery body env.sys.recvs
  given : ∀ events block,
    (WebService.request_RfidInfoSelect cfg.m_serverIP cfg.m_sMemcoCd cfg.m_sSiteCd c.serialNumber
      env disk).value = some ⟨events, .ok (.block block)⟩ → c.reply = .ok (some block)

/-- What `getInfo` hears of a card: nothing where it does not ask, an exception, a record, or
a body without one. -/
inductive Heard (signedChar : Bool) (cfg : Employee.Config) (c : Card) where
  | unasked (uses : cfg.m_bUseLocalDB = true)
  | threw (asks : cfg.m_bUseLocalDB = false) (e : WebExcept) (reply : c.reply = .error e)
  | record (asks : cfg.m_bUseLocalDB = false) (r : Reply) (request : Request cfg c r.text)
      (photo : PhotoReadable signedChar r.row)
  | unknown (asks : cfg.m_bUseLocalDB = false) (body : Bytes) (request : Request cfg c body)
      (text : 0 ∉ body) (empty : ¬ 60 :: ascii "Table" <:+: body)

/-- The record that decides, where the database has `rows`. -/
def Heard.row {signedChar : Bool} {cfg : Employee.Config} {c : Card}
    (heard : Heard signedChar cfg c) (rows : List Row) : Option Row :=
  match heard with
  | .unasked .. | .threw .. => rows.find? fun row => decide (HasNumber c.serialNumber row)
  | .record _ r .. => some r.row
  | .unknown .. => none

/-! ## Records and what is read of them -/

section Records

variable {cfg : Settings} {today : Date} {row : Row}

theorem mayPass_carried {ei : EmployeeInfo} (h : row.CarriedBy ei) :
    MayPass cfg today ei ↔ RowMayPass cfg today row := by
  have hstatus : (row.value .IN_OUT_GB).getD [] = ascii "0002" ↔
      row.value .IN_OUT_GB = some (ascii "0002") := by
    cases row.value .IN_OUT_GB with
    | none => exact iff_of_false (by decide) (by decide)
    | some v => rw [Option.getD_some, Option.some.injEq]
  have htype : ei.utype = 67 ↔ (row.value .UTYPE).bind List.head? = some 67 := by
    rw [← h.utype, Option.some.injEq]
  rw [MayPass, RowMayPass, h.in_out_gb, h.zone_code, h.ent_co_ymd, h.rtr_co_ymd, hstatus, htype]

theorem mayPass_agree {a b : EmployeeInfo} (h : Agree a b) :
    MayPass cfg today a ↔ MayPass cfg today b := by
  rw [MayPass, MayPass, h.in_out_gb, h.utype, h.zone_code, h.ent_co_ymd, h.rtr_co_ymd]

/-- A record is decided on as its row is, and shows its names. -/
structure Reads (cfg : Settings) (today : Date) (row : Row) (ei : EmployeeInfo) : Prop where
  passes : MayPass cfg today ei ↔ RowMayPass cfg today row
  company_name : ei.company_name = (row.value .CO_NM).getD []
  lab_name : ei.lab_name = (row.value .LAB_NM).getD []
  pin_no : ei.pin_no = (row.value .PIN_NO).getD []
  lab_no : ei.lab_no = (row.value .LAB_NO).getD []
  utype : some ei.utype = (row.value .UTYPE).bind List.head?

theorem Reads.agree {a b : EmployeeInfo} (hb : Reads cfg today row b) (h : Agree a b) :
    Reads cfg today row a where
  passes := (mayPass_agree h).trans hb.passes
  company_name := h.company_name.trans hb.company_name
  lab_name := h.lab_name.trans hb.lab_name
  pin_no := h.pin_no.trans hb.pin_no
  lab_no := h.lab_no.trans hb.lab_no
  utype := (congrArg some h.utype).trans hb.utype

/-- A copy of what was read into the list. -/
theorem copied {sn : Bytes} (hrow : HasNumber sn row) (block new : Uninit) :
    ∃ off, copyRecord (EmployeeInfo.new new) (row.info block) = some off ∧
      Reads cfg today row off ∧
      ∀ signedChar m_bDisplayPhoto old,
        Reads cfg today row (onlineInfo signedChar m_bDisplayPhoto row (EmployeeInfo.new old)) := by
  have hcarried := row.info_carries block
  have hserial : cstring (row.info block).serial_number.val = some sn :=
    hcarried.serial_number.trans hrow
  obtain ⟨off, hcopy⟩ := copyRecord_terminated hserial (EmployeeInfo.new new)
  have hoff : Reads cfg today row off := by
    have hpass : MayPass cfg today (row.info block) ↔ RowMayPass cfg today row :=
      mayPass_carried hcarried
    obtain ⟨s, -, hs⟩ := Option.bind_eq_some_iff.mp hcopy
    obtain rfl := Option.some.inj hs
    refine ⟨?_, hcarried.company_name, hcarried.lab_name, hcarried.pin_no, hcarried.lab_no,
      hcarried.utype⟩
    rw [← hpass]
    simp only [MayPass, EmployeeInfo.new, Option.or_none]
  exact ⟨off, hcopy, hoff, fun signedChar m_bDisplayPhoto old => hoff.agree (agree_of_copy hcopy)⟩

/-- The search in the list is one in the database. -/
theorem find_infos (blocks : Nat → Uninit) (i : Nat) (rows : List Row) (sn : Bytes) :
    (Row.infos blocks i rows).find? (fun t => decide (cstring t.serial_number.val = some sn)) =
        none ∧ rows.find? (fun row => decide (HasNumber sn row)) = none ∨
      ∃ row block, HasNumber sn row ∧
        rows.find? (fun row => decide (HasNumber sn row)) = some row ∧
        (Row.infos blocks i rows).find?
          (fun t => decide (cstring t.serial_number.val = some sn)) = some (row.info block) := by
  induction rows generalizing i with
  | nil => exact .inl ⟨rfl, rfl⟩
  | cons row rows ih =>
      have hserial := (row.info_carries (blocks i)).serial_number
      rw [Row.infos, List.find?_cons, List.find?_cons, hserial]
      by_cases hrow : HasNumber sn row
      · rw [decide_eq_true hrow, decide_eq_true (show row.value .RFID_CAR = some sn from hrow)]
        exact .inr ⟨row, blocks i, hrow, rfl, rfl⟩
      · rw [decide_eq_false hrow, decide_eq_false (show ¬ row.value .RFID_CAR = some sn from hrow)]
        exact ih (i + 1)

end Records

/-! ## A card -/

section Lookup

variable {signedChar : Bool} {cfg : Settings} {c : Card}

/-- Without an answer of the server the list is searched. -/
theorem obtain_local {ret : Bool} {ei : EmployeeInfo}
    (h : cfg.employee.m_bUseLocalDB = true ∨
      cfg.employee.m_bUseLocalDB = false ∧ ∃ e, c.reply = .error e)
    (hlocal : EmployeeInfoMgr.localDB c.m_employInfoMrg c.serialNumber (EmployeeInfo.new c.block) =
      some (ret, ei)) :
    ∃ active, MainDelegator.obtain signedChar cfg c = some (ret, ei, active) := by
  rcases h with huses | ⟨hasks, e, he⟩
  · exact ⟨-1, by simp [MainDelegator.obtain, getInfo, huses, hlocal]⟩
  · exact ⟨0, by simp [MainDelegator.obtain, getInfo, hasks, he, hlocal]⟩

/-- A reply is read in the memory it was collected in. -/
theorem obtain_answered {body : Bytes} {ret : Bool} {ei : EmployeeInfo}
    (hasks : cfg.employee.m_bUseLocalDB = false) (request : Request cfg.employee c body)
    (hfill : fillEmployeeInfo signedChar cfg.employee.m_bDisplayPhoto (body ++ [0])
      (EmployeeInfo.new c.block) = some (ret, ei)) :
    MainDelegator.obtain signedChar cfg c = some (ret, ei, 1) := by
  have hreply := request.given _ _
    (request_RfidInfoSelect_delivered request.command request.reaches request.del request.disk)
  simp [MainDelegator.obtain, getInfo, hasks, hreply, hfill]

/-- Only what the call obtains is looked at. -/
theorem admits_of_obtain {ret : Bool} {ei : EmployeeInfo} {active : Int}
    (h : MainDelegator.obtain signedChar cfg c = some (ret, ei, active)) :
    (∃ ei', Admits signedChar cfg c ei') ↔ ret = true ∧ MayPass cfg c.today ei := by
  constructor
  · rintro ⟨ei', ⟨active', h'⟩, hpass⟩
    cases h.symm.trans h'
    exact ⟨rfl, hpass⟩
  · rintro ⟨rfl, hpass⟩
    exact ⟨ei, ⟨active, h⟩, hpass⟩

/-- What a call obtains of a card for which there is a row, or none. -/
def Obtains (signedChar : Bool) (cfg : Settings) (c : Card) : Option Row → Prop
  | none => ∃ ei active, MainDelegator.obtain signedChar cfg c = some (false, ei, active)
  | some row => ∃ ei active, MainDelegator.obtain signedChar cfg c = some (true, ei, active) ∧
      Reads cfg c.today row ei

/-- A search in the list of the database finds its first record with the number. -/
theorem obtains_local {blocks : Nat → Uninit} {rows : List Row}
    (hlist : c.m_employInfoMrg.m_vectorEmployeeInfo = Row.infos blocks 0 rows)
    (h0 : 0 ∉ c.serialNumber) (hlen : c.serialNumber.length < 16)
    (h : cfg.employee.m_bUseLocalDB = true ∨
      cfg.employee.m_bUseLocalDB = false ∧ ∃ e, c.reply = .error e) :
    Obtains signedChar cfg c (rows.find? fun row => decide (HasNumber c.serialNumber row)) := by
  have hsearch := searchDB_eq_find h0 hlen c.m_employInfoMrg.m_vectorEmployeeInfo
  rw [hlist] at hsearch
  rcases find_infos blocks 0 rows c.serialNumber with
    ⟨hnone, hrows⟩ | ⟨row, block, hrow, hrows, hsome⟩
  · rw [hnone] at hsearch
    have hlocal : EmployeeInfoMgr.localDB c.m_employInfoMrg c.serialNumber
        (EmployeeInfo.new c.block) = some (false, EmployeeInfo.new c.block) := by
      rw [EmployeeInfoMgr.localDB, hlist, hsearch]
      rfl
    rw [hrows]
    exact ⟨_, obtain_local h hlocal⟩
  · rw [hsome] at hsearch
    obtain ⟨off, hcopy, hreads, -⟩ := @copied cfg c.today row _ hrow block c.block
    have hlocal : EmployeeInfoMgr.localDB c.m_employInfoMrg c.serialNumber
        (EmployeeInfo.new c.block) = some (true, off) := by
      rw [EmployeeInfoMgr.localDB, hlist, hsearch]
      simp [hcopy]
    obtain ⟨active, hobtain⟩ := @obtain_local signedChar cfg c _ _ h hlocal
    rw [hrows]
    exact ⟨off, active, hobtain, hreads⟩

/-- What is obtained is read of the row that decides. -/
theorem obtains_row (heard : Heard signedChar cfg.employee c) {blocks : Nat → Uninit}
    {rows : List Row} (hlist : c.m_employInfoMrg.m_vectorEmployeeInfo = Row.infos blocks 0 rows)
    (h0 : 0 ∉ c.serialNumber) (hlen : c.serialNumber.length < 16) :
    Obtains signedChar cfg c (heard.row rows) := by
  cases heard with
  | unasked uses => exact obtains_local hlist h0 hlen (.inl uses)
  | threw asks e reply => exact obtains_local hlist h0 hlen (.inr ⟨asks, e, reply⟩)
  | record asks r request photo =>
      have hfill := fillEmployeeInfo_reply signedChar cfg.employee.m_bDisplayPhoto r []
        (EmployeeInfo.new c.block) photo
      have hobtain : MainDelegator.obtain signedChar cfg c = _ :=
        obtain_answered asks request hfill
      obtain ⟨v, hv, -⟩ := r.row.card
      obtain ⟨-, -, -, hreads⟩ := @copied cfg c.today r.row v hv emptyBlock emptyBlock
      exact ⟨_, 1, hobtain, hreads _ _ _⟩
  | unknown asks body request text empty =>
      have hnone := strstr_missing [] [] text empty (by decide)
      have hfill : fillEmployeeInfo signedChar cfg.employee.m_bDisplayPhoto (body ++ [0])
          (EmployeeInfo.new c.block) = some (false, EmployeeInfo.new c.block) := by
        have hkey : ascii "<Table" = 60 :: ascii "Table" := rfl
        rw [fillEmployeeInfo_eq, hkey]
        rw [List.nil_append, List.length_nil] at hnone
        rw [hnone]
      exact ⟨_, 1, obtain_answered asks request hfill⟩

/-- A card is let in precisely when the record that decides lets its holder pass. -/
theorem Obtains.admits_iff {found : Option Row} (h : Obtains signedChar cfg c found) :
    (∃ ei, Admits signedChar cfg c ei) ↔
      ∃ row, found = some row ∧ RowMayPass cfg c.today row := by
  cases found with
  | none =>
      obtain ⟨ei, active, hobtain⟩ := h
      rw [admits_of_obtain hobtain]
      exact iff_of_false (fun h => Bool.false_ne_true h.1) fun ⟨_, h, _⟩ => nomatch h
  | some row =>
      obtain ⟨ei, active, hobtain, hreads⟩ := h
      rw [admits_of_obtain hobtain, hreads.passes]
      simp

end Lookup

def visitor : Row where
  value
    | .LAB_NO => some (ascii "LM00000811")
    | .RFID_CAR => some (ascii "253161024009")
    | .IN_OUT_GB => some (ascii "0002")
    | .UTYPE => some (ascii "C")
    | _ => none
  plain := by
    intro t v hv
    cases t <;> cases hv <;> exact ⟨by decide, by decide⟩
  card := ⟨_, rfl, by decide⟩
  kind := ⟨_, rfl, by decide⟩
  dates := by
    rintro t v (rfl | rfl) hv <;> cases hv

theorem nul_not_mem_nil : 0 ∉ ([] : Bytes) := List.not_mem_nil

theorem table_not_infix_nil : ¬ 60 :: ascii "Table" <:+: ([] : Bytes) :=
  fun h => absurd (List.infix_nil.mp h) (List.cons_ne_nil _ _)

def visitorDocument : Document :=
  ⟨[⟨[], agedLayout _, visitor, nul_not_mem_nil, table_not_infix_nil⟩], [], nul_not_mem_nil,
    table_not_infix_nil⟩

/-- The request is taken whole, and answered. -/
def answering (recvs : List Recv) : SysCalls :=
  { unreachable with errno_inprogress := true, poll_out := 1, sends := [146], poll_in := 1, recvs }

def visitorTurn : Turn startConfig where
  bForce := true
  env := cleanEnv (answering
    [.data (OkReply.plain visitorDocument.text).head, .data visitorDocument.text])
  answer := .served visitorDocument
    (.plain (by decide +kernel) (by decide +kernel) (by decide +kernel)) (by decide +kernel)
    ⟨[], rfl⟩

def visitedGate : Settings := ⟨false, true, false, [], ascii "0001", startConfig⟩

def visitorCard (mgr : EmployeeInfoMgr) : Card :=
  ⟨ascii "253161024009", mgr, .error .EXCEPTION_CONNECT, emptyBlock, ⟨2016, 1, 1⟩, none,
    ⟨116, 0, 1, 9, 0, 0⟩⟩

end Acu.System
