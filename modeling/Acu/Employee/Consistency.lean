import Acu.Core.Machine
import Acu.Employee.Manager

/-!
# The cache against the file

The states in which calls of `updateLocalDB` return, and when the list of records
is one that the parser gives for the file on the disk.
-/

namespace Acu.Employee

open Acu.Core Acu.Core.CMemory Web EmployeeInfoMgr

/-- `recs` is what `fillEmployeeInfoes` gives for the content, in some memory behind it. -/
def Parses (content : Bytes) (recs : List EmployeeInfo) : Prop :=
  ∃ tail blocks, fillEmployeeInfoes blocks (content ++ tail) [] = some recs

/-- A content without a record start parses to the empty list, and no other content does. -/
theorem parses_nil_iff (content : Bytes) : Parses content [] ↔ NoTable content := by
  constructor
  · intro h
    rcases h with ⟨tail, blocks, h⟩
    by_contra hn
    exact fillEmployeeInfoes_ne_nil hn tail blocks h
  · intro h
    exact ⟨[0], fun _ => emptyBlock, fillEmployeeInfoes_of_noTable h _⟩

/-! ## The states in which the calls return -/

/-- What stands on the disk and in memory when a call has returned. -/
structure Settled where
  disk : Disk String
  mgr : EmployeeInfoMgr

/-- One call of `updateLocalDB(bForce)`. -/
structure Refresh where
  bForce : Bool
  env : UpdateEnv

def settle (d : Disk String) (o : Observed String Note EmployeeInfoMgr) : Option Settled :=
  o.value.map fun mgr => ⟨FileEvent.replay d o.events, mgr⟩

def refreshes (cfg : Config) : Machine Settled Refresh where
  step s a := settle s.disk (updateLocalDB cfg s.mgr a.bForce a.env s.disk)

/-- The state the constructor leaves. -/
def constructed (cfg : Config) (env : UpdateEnv) (d : Disk String) : Option Settled :=
  settle d (construct cfg env d)

/-- The list is the parsed file, and every record of the file is found under its number. -/
def CacheMatches (s : Settled) : Prop :=
  ∃ content recs, s.disk DB_FILE = some content ∧ Parses content recs ∧
    s.mgr.m_vectorEmployeeInfo = recs ∧
    ∀ ei ∈ recs, ∀ sn, cstring ei.serial_number.val = some sn →
      ∃ t, searchDB sn s.mgr.m_vectorEmployeeInfo = some (some t) ∧
        cstring t.serial_number.val = some sn

theorem cacheMatches_iff_parses (s : Settled) :
    CacheMatches s ↔
      ∃ content, s.disk DB_FILE = some content ∧ Parses content s.mgr.m_vectorEmployeeInfo := by
  constructor
  · intro h
    rcases h with ⟨content, recs, hc, hp, rfl, _⟩
    exact ⟨content, hc, hp⟩
  · intro h
    rcases h with ⟨content, hc, hp⟩
    refine ⟨content, _, hc, hp, rfl, fun ei hei sn hsn => ?_⟩
    obtain ⟨t, _, hfound, ht⟩ := searchDB_finds hei hsn
    exact ⟨t, hfound, ht⟩

/-! ## What one call changes -/

section Step

variable {cfg : Config} {s t : Settled} {bForce : Bool} {env : UpdateEnv}

theorem reload_settles {mgr mgr' : EmployeeInfoMgr} {d : Disk String}
    (h : (reload mgr env d).value = some mgr') : CacheMatches ⟨d, mgr'⟩ := by
  obtain ⟨text, elems, htext, helems, rfl⟩ := reload_value h
  exact (cacheMatches_iff_parses _).mpr ⟨text, htext, env.tail, env.blocks, helems⟩

/-- Where the file exists, a call is skipped, or its download throws and neither the file
nor the list changes, or it returns with both renewed. -/
theorem refresh_cases {text : Bytes} (hd : s.disk DB_FILE = some text)
    (h : settle s.disk (updateLocalDB cfg s.mgr bForce env s.disk) = some t) :
    ((s.mgr.m_bUpdated && !bForce) = true ∧ t = s) ∨
    ((s.mgr.m_bUpdated && !bForce) = false ∧
      (∃ e, (download cfg env TEMP_DB_FILE s.disk).value = some (.error e)) ∧
      t.disk DB_FILE = some text ∧
      t.mgr.m_vectorEmployeeInfo = s.mgr.m_vectorEmployeeInfo) ∨
    ((s.mgr.m_bUpdated && !bForce) = false ∧
      (download cfg env TEMP_DB_FILE s.disk).value = some (.ok ()) ∧ CacheMatches t) := by
  cases hskip : s.mgr.m_bUpdated && !bForce with
  | true =>
      rw [updateLocalDB_skipped hskip] at h
      cases h
      exact .inl ⟨rfl, rfl⟩
  | false =>
      rw [updateLocalDB_present hskip hd] at h
      cases hv : (download cfg env TEMP_DB_FILE s.disk).value with
      | none => rw [hv] at h; cases h
      | some r =>
          rw [hv] at h
          cases r with
          | error e =>
              dsimp only [settle, Option.map_some] at h
              obtain rfl := Option.some.inj h
              refine .inr (.inl ⟨rfl, ⟨e, rfl⟩, ?_, rfl⟩)
              dsimp only
              rw [download_temp_keeps, hd]
          | ok u =>
              dsimp only [settle] at h
              obtain ⟨mgr', hm, rfl⟩ := Option.map_eq_some_iff.mp h
              exact .inr (.inr ⟨rfl, rfl, reload_settles hm⟩)

theorem refresh_keeps (hs : CacheMatches s) {a : Refresh}
    (h : (refreshes cfg).step s a = some t) : CacheMatches t := by
  obtain ⟨content, hc, hp⟩ := (cacheMatches_iff_parses s).mp hs
  have hstep : settle s.disk (updateLocalDB cfg s.mgr a.bForce a.env s.disk) = some t := h
  rcases refresh_cases hc hstep with ⟨_, rfl⟩ | ⟨_, _, hd, hcache⟩ | ⟨_, _, ht⟩
  · exact hs
  · exact (cacheMatches_iff_parses t).mpr ⟨content, hd, hcache ▸ hp⟩
  · exact ht

/-- After a construction over an existing file, the list matches it unless the download
threw and the file holds a record. -/
theorem constructed_matches_iff {d : Disk String} {db : Bytes} (hdb : d DB_FILE = some db)
    (h : constructed cfg env d = some s) :
    CacheMatches s ↔
      (∀ e, (download cfg env TEMP_DB_FILE d).value ≠ some (.error e)) ∨ NoTable db := by
  have hstep : settle d (updateLocalDB cfg .empty true env d) = some s := h
  rcases refresh_cases (s := ⟨d, .empty⟩) hdb hstep with
    ⟨hskip, _⟩ | ⟨_, ⟨e, he⟩, hd, hcache⟩ | ⟨_, hok, ht⟩
  · cases hskip
  · rw [cacheMatches_iff_parses, hd, hcache]
    constructor
    · intro h
      rcases h with ⟨content, hcontent, hp⟩
      cases hcontent
      exact .inr ((parses_nil_iff db).mp hp)
    · rintro (hne | hno)
      · exact absurd he (hne e)
      · exact ⟨db, rfl, (parses_nil_iff db).mpr hno⟩
  · refine iff_of_true ht (.inl fun e he => ?_)
    rw [hok] at he
    cases he

end Step

def startConfig : Config where
  m_bUseLocalDB := false
  m_sMemcoCd := ascii "MC00000003"
  m_sSiteCd := ascii "ST00000005"
  m_bDisplayPhoto := true
  m_serverIP := ascii "10.9.0.2"

/-- `connect` is refused at once. -/
def unreachable : SysCalls where
  socket := 5
  fcntl_nonblock := 0
  errno_inprogress := false
  poll_out := 0
  fcntl_flags := 0
  sends := []
  poll_in := 0
  recvs := []

def cleanEnv (sys : SysCalls) : UpdateEnv where
  download := ⟨sys, ⟨List.replicate RCVHEADERBUFSIZE 0, List.length_replicate⟩, fun _ => 0⟩
  tail := [0]
  blocks := fun _ => emptyBlock

def oneEmployee : Bytes :=
  ascii "<DataSet><Table><PIN_NO>1</PIN_NO><RFID_CAR>253161024009</RFID_CAR></Table></DataSet>"

def oldDisk : Disk String := fun p => if p = DB_FILE then some oneEmployee else none

theorem unreachable_download :
    download startConfig (cleanEnv unreachable) TEMP_DB_FILE oldDisk =
      ⟨[], some (.error .EXCEPTION_CONNECT)⟩ := by
  have hcmd : ∃ cmd, selectAllCmd startConfig.m_serverIP startConfig.m_sMemcoCd
      startConfig.m_sSiteCd = some cmd := Option.isSome_iff_exists.mp (by decide +kernel)
  rcases hcmd with ⟨cmd, hcmd⟩
  have hs : WebApi.beforeParsing cmd 0 unreachable = some (.stopped .RET_CONNECT_FAIL) := rfl
  exact request_RfidInfoSelectAll_stopped _ _ _ (cleanEnv unreachable).download _ hcmd hs _

theorem unreachable_constructed :
    constructed startConfig (cleanEnv unreachable) oldDisk = some ⟨oldDisk, .empty⟩ := by
  have hd : oldDisk DB_FILE = some oneEmployee := rfl
  rw [constructed, construct, updateLocalDB_present rfl hd, unreachable_download]
  rfl

end Acu.Employee
