import Acu.Employee.Consistency
import Acu.Employee.Document
import Acu.Web.Delivery

/-!
# The database of the server and its copy

Over the calls of `updateLocalDB` lies a plain account of what the program should hold: the
database that the server last gave it, if it gave any. The file and the list of records follow
this account, however the replies are cut into pieces.
-/

namespace Acu.System

open Acu.Core Acu.Core.CMemory Employee EmployeeInfoMgr Web

/-! ## The account -/

/-- What the server makes of one download: the whole of a database, with a NUL behind the
block it is read back into, or an exception. -/
inductive Answer (cfg : Employee.Config) (env : UpdateEnv) where
  | served (doc : Document) (del : Delivery doc.text env.download.sys.recvs)
      (reaches : ReachesParsing cfg.m_serverIP cfg.m_sMemcoCd cfg.m_sSiteCd env.download.sys)
      (terminated : ∃ rest, env.tail = 0 :: rest)
  | threw (throws : ∀ outFilename d,
      ∃ e, (EmployeeInfoMgr.download cfg env outFilename d).value = some (.error e))

/-- One call of `updateLocalDB(bForce)`; that of the constructor is forced. -/
structure Turn (cfg : Employee.Config) where
  bForce : Bool
  env : UpdateEnv
  answer : Answer cfg env

def Turn.refresh {cfg : Employee.Config} (t : Turn cfg) : Refresh := ⟨t.bForce, t.env⟩

/-- The database that was last taken over, and whether the call before took one. -/
structure Directory where
  updated : Bool
  served : Option Document

namespace Directory

/-- Before the constructor has asked for a database. -/
def start : Directory := ⟨false, none⟩

def rows (v : Directory) : List Row := v.served.elim [] Document.rows

/-- A call that is not forced asks for nothing as long as the one before took a database over;
an exception leaves what was held. -/
def follow {cfg : Employee.Config} (v : Directory) (t : Turn cfg) : Directory :=
  if v.updated && !t.bForce then v
  else
    match t.answer with
    | .served doc .. => ⟨true, some doc⟩
    | .threw _ => { v with updated := false }

/-- The list holds the records of the database, and the file its text. -/
structure Holds (v : Directory) (s : Settled) : Prop where
  updated : s.mgr.m_bUpdated = v.updated
  list : ∃ blocks, s.mgr.m_vectorEmployeeInfo = Row.infos blocks 0 v.rows
  file : ∀ doc, v.served = some doc → s.disk DB_FILE = some doc.text

theorem holds_start (d : Disk String) : start.Holds ⟨d, .empty⟩ where
  updated := rfl
  list := ⟨fun _ => emptyBlock, rfl⟩
  file _ h := nomatch h

end Directory

/-! ## A call -/

section Call

variable {cfg : Employee.Config} {v : Directory} {s : Settled}

/-- Reading a database back gives its records. -/
theorem reload_served {doc : Document} {mgr : EmployeeInfoMgr} {env : UpdateEnv}
    {d : Disk String} (hfile : d DB_FILE = some doc.text) (ht : ∃ rest, env.tail = 0 :: rest) :
    (reload mgr env d).value = some ⟨true, Row.infos env.blocks 0 doc.rows⟩ := by
  obtain ⟨rest, hrest⟩ := ht
  have hparsed := fillEmployeeInfoes_text env.blocks doc rest []
  rw [reload_apply, hfile, Option.bind_some, hrest, hparsed]
  rfl

/-- The renamed file. -/
theorem replacing_served {doc : Document} {env : UpdateEnv} {d : Disk String}
    (hfile : FileEvent.replay d (EmployeeInfoMgr.download cfg env TEMP_DB_FILE d).events
      TEMP_DB_FILE = some doc.text) :
    FileEvent.replay d (replacing cfg env d) DB_FILE = some doc.text := by
  have hother : FileEvent.apply (FileEvent.replay d
      (EmployeeInfoMgr.download cfg env TEMP_DB_FILE d).events)
        (.remove DB_FILE : FileEvent String Note) TEMP_DB_FILE = some doc.text := by
    rw [FileEvent.apply_frame _ _ _ (by decide), hfile]
  rw [replacing, FileEvent.replay_append, FileEvent.replay_cons, FileEvent.replay_cons,
    FileEvent.replay_nil]
  simp only [FileEvent.apply] at hother ⊢
  rw [hother]
  exact Function.update_self _ _ _

/-- A database that is served is taken over, whether there was a file or not. -/
theorem update_served {doc : Document} {env : UpdateEnv} {bForce : Bool}
    (hask : (s.mgr.m_bUpdated && !bForce) = false)
    (del : Delivery doc.text env.download.sys.recvs)
    (hreaches : ReachesParsing cfg.m_serverIP cfg.m_sMemcoCd cfg.m_sSiteCd env.download.sys)
    (ht : ∃ rest, env.tail = 0 :: rest) :
    ∃ events, updateLocalDB cfg s.mgr bForce env s.disk =
        ⟨events, some ⟨true, Row.infos env.blocks 0 doc.rows⟩⟩ ∧
      FileEvent.replay s.disk events DB_FILE = some doc.text := by
  have hdelivered (outFilename : String) := request_RfidInfoSelectAll_delivered hreaches del
    doc.nul_not_mem_text outFilename s.disk
  cases hd : s.disk DB_FILE with
  | none =>
      obtain ⟨hvalue, hfile⟩ := hdelivered DB_FILE
      have hcall := @updateLocalDB_absent cfg s.mgr bForce env s.disk hask hd
      rw [EmployeeInfoMgr.download, hvalue] at hcall
      dsimp only at hcall
      rw [reload_served hfile ht] at hcall
      exact ⟨_, hcall, hfile⟩
  | some text =>
      obtain ⟨hvalue, hfile⟩ := hdelivered TEMP_DB_FILE
      have hrenamed : FileEvent.replay s.disk (replacing cfg env s.disk) DB_FILE = some doc.text :=
        replacing_served hfile
      have hcall := @updateLocalDB_present cfg s.mgr bForce env s.disk text hask hd
      rw [EmployeeInfoMgr.download, hvalue] at hcall
      dsimp only at hcall
      rw [reload_served hrenamed ht] at hcall
      exact ⟨_, hcall, hrenamed⟩

/-- An exception leaves the list, and the file where there is one. -/
theorem update_threw {env : UpdateEnv} {bForce : Bool}
    (hask : (s.mgr.m_bUpdated && !bForce) = false)
    (hthrows : ∀ outFilename d,
      ∃ e, (EmployeeInfoMgr.download cfg env outFilename d).value = some (.error e)) :
    ∃ events, updateLocalDB cfg s.mgr bForce env s.disk =
        ⟨events, some { s.mgr with m_bUpdated := false }⟩ ∧
      ∀ text, s.disk DB_FILE = some text →
        FileEvent.replay s.disk events DB_FILE = some text := by
  cases hd : s.disk DB_FILE with
  | none =>
      obtain ⟨e, he⟩ := hthrows DB_FILE s.disk
      rw [updateLocalDB_absent hask hd, he]
      exact ⟨_, rfl, fun _ h => nomatch h⟩
  | some text =>
      obtain ⟨e, he⟩ := hthrows TEMP_DB_FILE s.disk
      rw [updateLocalDB_present hask hd, he]
      refine ⟨_, rfl, fun text' h => ?_⟩
      obtain rfl := Option.some.inj h
      exact (download_temp_keeps cfg env s.disk).trans hd

theorem holds_step (t : Turn cfg) (h : v.Holds s) :
    ∃ s', (refreshes cfg).step s t.refresh = some s' ∧ (v.follow t).Holds s' := by
  have hcall : (refreshes cfg).step s t.refresh =
      settle s.disk (updateLocalDB cfg s.mgr t.bForce t.env s.disk) := rfl
  rw [hcall]
  by_cases hskip : (v.updated && !t.bForce) = true
  · rw [Directory.follow, if_pos hskip, updateLocalDB_skipped (h.updated.symm ▸ hskip)]
    exact ⟨s, rfl, h⟩
  · have hask : (s.mgr.m_bUpdated && !t.bForce) = false := by
      rw [h.updated]
      exact Bool.eq_false_iff.mpr hskip
    rw [Directory.follow, if_neg hskip]
    cases t.answer with
    | served doc del reaches terminated =>
        obtain ⟨events, hevents, hfile⟩ := update_served hask del reaches terminated
        rw [hevents]
        refine ⟨_, rfl, rfl, ⟨t.env.blocks, rfl⟩, fun doc' hdoc => ?_⟩
        obtain rfl := Option.some.inj hdoc
        exact hfile
    | threw throws =>
        obtain ⟨events, hevents, hfile⟩ := update_threw hask throws
        rw [hevents]
        exact ⟨_, rfl, rfl, h.list, fun doc hdoc => hfile _ (h.file doc hdoc)⟩

end Call

/-- Along every sequence of calls, each of which returns. -/
theorem holds_run {cfg : Employee.Config} (d : Disk String) (turns : List (Turn cfg)) :
    ∃ s, (refreshes cfg).run ⟨d, .empty⟩ (turns.map Turn.refresh) = some s ∧
      (turns.foldl Directory.follow .start).Holds s :=
  (refreshes cfg).run_follows (fun _ _ t h => holds_step t h) (Directory.holds_start d) turns

end Acu.System
