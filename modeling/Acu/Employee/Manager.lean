import Acu.Employee.Parser
import Acu.Web.Download

/-!
# The employee database and its cache

`EmployeeInfoMgr` keeps a database file and the list of records parsed from it.
A refresh downloads the database, replaces the file, deletes the list and fills
it again; a lookup goes to the server or to the list.
-/

namespace Acu.Employee

open Acu.Core Acu.Core.CMemory Tools Web

abbrev DB_FILE : String := "employee.xml"
abbrev TEMP_DB_FILE : String := "employee_temp.xml"

/-- What the constructor takes from the settings, with the address the web service holds. -/
structure Config where
  m_bUseLocalDB : Bool
  m_sMemcoCd : Bytes
  m_sSiteCd : Bytes
  m_bDisplayPhoto : Bool
  m_serverIP : Bytes

structure EmployeeInfoMgr where
  m_bUpdated : Bool
  m_vectorEmployeeInfo : List EmployeeInfo
  deriving DecidableEq

/-- The members as the constructor initialises them, before it calls `updateLocalDB(true)`. -/
def EmployeeInfoMgr.empty : EmployeeInfoMgr := ⟨false, []⟩

/-- What one refresh depends on beside its arguments: the download, the memory behind
`xml_buf`, which is not terminated, and the blocks the records are built in. -/
structure UpdateEnv where
  download : DownloadEnv
  tail : Bytes
  blocks : Nat → Uninit

namespace EmployeeInfoMgr

/-! ## Refreshing -/

def deleteCache (mgr : EmployeeInfoMgr) : EmployeeInfoMgr := { mgr with m_vectorEmployeeInfo := [] }

/-- `updateLocalDB` from the opening of `DB_FILE` on. -/
def reload (mgr : EmployeeInfoMgr) (env : UpdateEnv) : FileProg String Note EmployeeInfoMgr := do
  match ← FileProg.contents DB_FILE with
  | none => .stuck -- `tellg` gives -1 and `new char[-1]` throws what nothing catches
  | some text =>
      let mgr := mgr.deleteCache
      let elems ← .ofOption
        (fillEmployeeInfoes env.blocks (text ++ env.tail) mgr.m_vectorEmployeeInfo)
      pure { m_bUpdated := true, m_vectorEmployeeInfo := elems }

/-- The download of the database into `outFilename`. -/
def download (cfg : Config) (env : UpdateEnv) (outFilename : String) :
    FileProg String Note (Except WebExcept Unit) :=
  request_RfidInfoSelectAll cfg.m_serverIP cfg.m_sMemcoCd cfg.m_sSiteCd env.download outFilename

def updateLocalDB (cfg : Config) (mgr : EmployeeInfoMgr) (bForce : Bool) (env : UpdateEnv) :
    FileProg String Note EmployeeInfoMgr := do
  if mgr.m_bUpdated && !bForce then pure mgr
  else
    match ← FileProg.contents DB_FILE with
    | none =>
        match ← download cfg env DB_FILE with
        | .error _ => pure { mgr with m_bUpdated := false }
        | .ok _ => reload mgr env
    | some _ =>
        match ← download cfg env TEMP_DB_FILE with
        | .error _ => pure { mgr with m_bUpdated := false }
        | .ok _ => do
            .emit (.remove DB_FILE)
            .emit (.rename TEMP_DB_FILE DB_FILE)
            reload mgr env

/-- The constructor. -/
def construct (cfg : Config) (env : UpdateEnv) : FileProg String Note EmployeeInfoMgr :=
  updateLocalDB cfg empty true env

/-! ## Looking up -/

/-- `searchDB`: a record whose serial number is not terminated is read past its end. -/
def searchDB (serialNumber : Bytes) : List EmployeeInfo → Option (Option EmployeeInfo)
  | [] => some none
  | t :: ts => do
      if ← strcmpEq t.serial_number.val (serialNumber ++ [0]) then some (some t)
      else searchDB serialNumber ts

/-- `strcpy` between two arrays of one size. -/
def strcpy {n : Nat} (dest src : CharArray n) : Option (CharArray n) := do
  let s ← cstring src.val
  if h : s.length + 1 ≤ n then some (strncpy dest s (s.length + 1) h) else none

/-- The statements of `getInfo` that copy the record `t` found in the list; a date that `t`
lacks leaves the one in `ei`. -/
def copyRecord (ei t : EmployeeInfo) : Option EmployeeInfo := do
  let serial_number ← strcpy ei.serial_number t.serial_number
  some { ei with
    serial_number := serial_number
    company_name := t.company_name
    ent_co_ymd := t.ent_co_ymd.or ei.ent_co_ymd
    rtr_co_ymd := t.rtr_co_ymd.or ei.rtr_co_ymd
    in_out_gb := t.in_out_gb
    lab_no := t.lab_no
    lab_name := t.lab_name
    pin_no := t.pin_no
    utype := t.utype
    zone_code := t.zone_code }

/-- `getInfo` behind the label `localDB`. -/
def localDB (mgr : EmployeeInfoMgr) (serialNumber : Bytes) (ei : EmployeeInfo) :
    Option (Bool × EmployeeInfo) := do
  match ← searchDB serialNumber mgr.m_vectorEmployeeInfo with
  | none => some (false, ei)
  | some t =>
      let ei ← copyRecord ei t
      some (true, ei)

/-- `getInfo`: the result, the record and `bServerActive`. The outcome of
`request_RfidInfoSelect` is an exception, a null pointer or the memory of its reply. -/
def getInfo (signedChar : Bool) (cfg : Config) (mgr : EmployeeInfoMgr) (serialNumber : Bytes)
    (reply : Except WebExcept (Option Bytes)) (ei : EmployeeInfo) (bServerActive : Int) :
    Option (Bool × EmployeeInfo × Int) := do
  if cfg.m_bUseLocalDB then
    let (ret, ei) ← mgr.localDB serialNumber ei
    some (ret, ei, bServerActive)
  else
    match reply with
    | .ok (some xml_buf) =>
        let (ret, ei) ← fillEmployeeInfo signedChar cfg.m_bDisplayPhoto xml_buf ei
        some (ret, ei, 1)
    | .ok none => some (false, ei, 0)
    | .error _ =>
        let (ret, ei) ← mgr.localDB serialNumber ei
        some (ret, ei, 0)

/-! ## What a refresh performs and returns -/

section Update

variable {cfg : Config} {mgr : EmployeeInfoMgr} {bForce : Bool} {env : UpdateEnv}
  {d : Disk String}

theorem reload_apply (mgr : EmployeeInfoMgr) (env : UpdateEnv) (d : Disk String) :
    reload mgr env d =
      ⟨[], (d DB_FILE).bind fun text =>
        (fillEmployeeInfoes env.blocks (text ++ env.tail) []).map fun elems => ⟨true, elems⟩⟩ := by
  rw [reload, FileProg.contents_bind]
  cases d DB_FILE with
  | none => rfl
  | some text => exact FileProg.ofOption_bind_pure _ _ d

theorem reload_events (mgr : EmployeeInfoMgr) (env : UpdateEnv) (d : Disk String) :
    (reload mgr env d).events = [] := by
  rw [reload_apply]

/-- A reload that returns has parsed the file, whatever the list was before. -/
theorem reload_value {mgr' : EmployeeInfoMgr} (h : (reload mgr env d).value = some mgr') :
    ∃ text elems, d DB_FILE = some text ∧
      fillEmployeeInfoes env.blocks (text ++ env.tail) [] = some elems ∧ mgr' = ⟨true, elems⟩ := by
  rw [reload_apply] at h
  obtain ⟨text, htext, h⟩ := Option.bind_eq_some_iff.mp h
  obtain ⟨elems, helems, rfl⟩ := Option.map_eq_some_iff.mp h
  exact ⟨text, elems, htext, helems, rfl⟩

theorem updateLocalDB_skipped (h : (mgr.m_bUpdated && !bForce) = true) (d : Disk String) :
    updateLocalDB cfg mgr bForce env d = ⟨[], some mgr⟩ := by
  rw [updateLocalDB, if_pos h]
  rfl

/-- The three ways of a refresh whose file is missing. -/
theorem updateLocalDB_absent (h : (mgr.m_bUpdated && !bForce) = false) (hd : d DB_FILE = none) :
    updateLocalDB cfg mgr bForce env d =
      ⟨(download cfg env DB_FILE d).events,
        match (download cfg env DB_FILE d).value with
        | none => none
        | some (.error _) => some { mgr with m_bUpdated := false }
        | some (.ok _) =>
            (reload mgr env (FileEvent.replay d (download cfg env DB_FILE d).events)).value⟩ := by
  rw [updateLocalDB, h, if_neg (by decide), FileProg.contents_bind, hd]
  cases hv : (download cfg env DB_FILE d).value with
  | none => exact FileProg.bind_of_none _ hv
  | some r =>
      refine (FileProg.bind_of_some _ hv).trans ?_
      cases r with
      | error e => simp only [FileProg.pure_apply, List.append_nil]
      | ok u => simp only [reload_events, List.append_nil]

/-- The file events of a refresh that replaces an existing file. -/
def replacing (cfg : Config) (env : UpdateEnv) (d : Disk String) :
    List (FileEvent String Note) :=
  (download cfg env TEMP_DB_FILE d).events ++ [.remove DB_FILE, .rename TEMP_DB_FILE DB_FILE]

/-- The three ways of a refresh whose file exists. -/
theorem updateLocalDB_present {text : Bytes} (h : (mgr.m_bUpdated && !bForce) = false)
    (hd : d DB_FILE = some text) :
    updateLocalDB cfg mgr bForce env d =
      match (download cfg env TEMP_DB_FILE d).value with
      | none => ⟨(download cfg env TEMP_DB_FILE d).events, none⟩
      | some (.error _) =>
          ⟨(download cfg env TEMP_DB_FILE d).events, some { mgr with m_bUpdated := false }⟩
      | some (.ok _) =>
          ⟨replacing cfg env d,
            (reload mgr env (FileEvent.replay d (replacing cfg env d))).value⟩ := by
  rw [updateLocalDB, h, if_neg (by decide), FileProg.contents_bind, hd]
  cases hv : (download cfg env TEMP_DB_FILE d).value with
  | none => exact FileProg.bind_of_none _ hv
  | some r =>
      refine (FileProg.bind_of_some _ hv).trans ?_
      cases r with
      | error e => simp only [FileProg.pure_apply, List.append_nil]
      | ok u =>
          simp only [FileProg.emit_bind, reload_events, replacing, FileEvent.replay_append,
            FileEvent.replay_cons, FileEvent.replay_nil]

/-- A download into the temporary file leaves the database alone. -/
theorem download_temp_frame (cfg : Config) (env : UpdateEnv) (d : Disk String) :
    ∀ e ∈ (download cfg env TEMP_DB_FILE d).events, DB_FILE ∉ e.touched :=
  fun e he => request_RfidInfoSelectAll_emits _ _ _ _ _ d e he DB_FILE (by decide)

theorem download_temp_keeps (cfg : Config) (env : UpdateEnv) (d : Disk String) :
    FileEvent.replay d (download cfg env TEMP_DB_FILE d).events DB_FILE = d DB_FILE :=
  FileEvent.replay_frame d _ DB_FILE (download_temp_frame cfg env d)

end Update

/-! ## What a lookup finds -/

/-- The first record of the list with this serial number, for a number that fits its field. -/
theorem searchDB_eq_find {sn : Bytes} (hsn : 0 ∉ sn) (hlen : sn.length < 16)
    (recs : List EmployeeInfo) :
    searchDB sn recs =
      some (recs.find? fun t => decide (cstring t.serial_number.val = some sn)) := by
  induction recs with
  | nil => rfl
  | cons t ts ih =>
      rw [searchDB, strcmpEq_terminated hsn (by rw [t.serial_number.property]; exact hlen),
        Option.bind_eq_bind, Option.bind_some, List.find?_cons]
      cases hd : decide (cstring t.serial_number.val = some sn) with
      | true => rfl
      | false => simpa using ih

/-- The number of a record fits its field. -/
theorem length_lt_of_serial {r : EmployeeInfo} {sn : Bytes}
    (h : cstring r.serial_number.val = some sn) :
    0 ∉ sn ∧ sn.length < 16 := by
  obtain ⟨h0, rest, hrest⟩ := cstring_eq_some h
  have hlen := r.serial_number.property
  rw [hrest, List.length_append, List.length_cons] at hlen
  exact ⟨h0, by omega⟩

/-- Every record of the list whose number is terminated is found under it. -/
theorem searchDB_finds {recs : List EmployeeInfo} {ei : EmployeeInfo} {sn : Bytes}
    (hei : ei ∈ recs) (hsn : cstring ei.serial_number.val = some sn) :
    ∃ t ∈ recs, searchDB sn recs = some (some t) ∧ cstring t.serial_number.val = some sn := by
  obtain ⟨h0, hlen⟩ := length_lt_of_serial hsn
  cases hf : recs.find? fun t => decide (cstring t.serial_number.val = some sn) with
  | none => exact absurd hsn (by simpa using List.find?_eq_none.mp hf ei hei)
  | some t =>
      refine ⟨t, List.mem_of_find?_eq_some hf, ?_, by simpa using List.find?_some hf⟩
      rw [searchDB_eq_find h0 hlen, hf]

/-! ## Copying what was found -/

theorem strcpy_cstring {n : Nat} {dest src s : CharArray n} (h : strcpy dest src = some s) :
    cstring s.val = cstring src.val := by
  obtain ⟨text, htext, h⟩ := Option.bind_eq_some_iff.mp h
  split at h
  next hlen =>
    cases h
    obtain ⟨h0, _⟩ := cstring_eq_some htext
    rw [cstring_strncpy dest hlen h0 (Nat.lt_succ_self _), htext]
  · cases h

theorem strcpy_terminated {n : Nat} {src : CharArray n} {text : Bytes}
    (h : cstring src.val = some text) (dest : CharArray n) : ∃ s, strcpy dest src = some s := by
  obtain ⟨_, rest, hrest⟩ := cstring_eq_some h
  have hlen := src.property
  rw [hrest, List.length_append, List.length_cons] at hlen
  have hfits : text.length + 1 ≤ n := by omega
  exact ⟨_, by rw [strcpy, h, Option.bind_eq_bind, Option.bind_some, dif_pos hfits]⟩

theorem copyRecord_terminated {r : EmployeeInfo} {sn : Bytes}
    (h : cstring r.serial_number.val = some sn) (ei : EmployeeInfo) :
    ∃ ei', copyRecord ei r = some ei' := by
  obtain ⟨s, hs⟩ := strcpy_terminated h ei.serial_number
  exact ⟨_, by rw [copyRecord, hs, Option.bind_eq_bind, Option.bind_some]⟩

end EmployeeInfoMgr

end Acu.Employee
