import Acu.Attendance.Record
import Acu.Core.Heap
import Acu.Core.Machine

/-!
# Inserting and uploading time sheets

The threads of `TimeSheetMgr`: any number of them insert time sheets, or upload
what is stored in files and then, under the mutex, what is in the list. A request
that fails saves its text in a file before its exception is thrown. The replies
that were true, and the time sheets that still wait for one after a failure, are
kept as history.
-/

namespace Acu.Attendance

open Acu.Core

/-- A file of the store, with the time sheet whose request it was opened for, if that is one
of this history. -/
structure SavedFile where
  owner : Option Nat
  text : Bytes
  deriving DecidableEq, Repr

/-- Where a thread stands. The list phase holds the elements that are still to be requested
and `vector_erase`. -/
inductive Pc where
  | idle
  | inserting (ts : TimeSheet)
  | sending (filelist : List Bytes)
  | deleting (file : Bytes) (filelist : List Bytes)
  | listing (todo vector_erase : List Nat)
  | saving (a : Nat) (todo vector_erase : List Nat)
  deriving DecidableEq, Repr

/-- A time sheet gets its address when it is pushed. Files go by their name in the store. -/
structure TimeSheetMgr where
  heap : Heap TimeSheet
  m_listTS : List Nat
  mtx : Option Nat
  pc : Nat → Pc
  files : Bytes → Option SavedFile
  replied : List Nat
  acks : List Nat
  unconfirmed : List Nat

/-- The steps of thread `tid`. A reply that is missing stands for an exception, a listing
that is missing for one of `getList`. -/
inductive UploadLabel where
  | insert (tid : Nat) (tm : Tm) (lab_no : Bytes) (utype : UInt8) (img : Bytes)
  | push (tid : Nat)
  | upload (tid : Nat) (filelist : Option (List Bytes))
  | send (tid : Nat) (reply : Option Bool)
  | delete (tid : Nat)
  | lock (tid : Nat)
  | request (tid : Nat) (reply : Option Bool)
  | save (tid : Nat)
  | erase (tid : Nat)
  | unlock (tid : Nat)

namespace TimeSheetMgr

def at_ (s : TimeSheetMgr) (tid : Nat) (pc : Pc) : TimeSheetMgr :=
  { s with pc := Function.update s.pc tid pc }

def setFile (s : TimeSheetMgr) (name : Bytes) (f : Option SavedFile) : TimeSheetMgr :=
  { s with files := Function.update s.files name f }

/-- What `getList` can read: names of files, each once, in some order. A file that is created
while the directory is read may be missing. -/
def Lists (s : TimeSheetMgr) (filelist : List Bytes) : Prop :=
  filelist.Nodup ∧ ∀ name ∈ filelist, (s.files name).isSome

instance (s : TimeSheetMgr) (filelist : List Bytes) : Decidable (s.Lists filelist) :=
  inferInstanceAs (Decidable (_ ∧ _))

/-- History: a true reply to the time sheet `a`. -/
def confirm (s : TimeSheetMgr) (a : Nat) : TimeSheetMgr :=
  { s with acks := s.acks ++ [a], unconfirmed := s.unconfirmed.filter (· ≠ a) }

/-- `m_listTS.push_back(ts)` under the mutex. -/
def pushBack (s : TimeSheetMgr) (ts : TimeSheet) : TimeSheetMgr :=
  { s with heap := s.heap.allocAll [ts], m_listTS := s.m_listTS ++ [s.heap.length] }

/-- The outcome of `request_SendFile` for the next file. A file that is gone cannot be read
into any buffer, and ends the program. -/
def send (s : TimeSheetMgr) (tid : Nat) (reply : Option Bool) : Option TimeSheetMgr :=
  match s.pc tid with
  | .sending (name :: filelist) =>
      match s.files name with
      | none => none
      | some f =>
          match reply with
          | none => some (s.at_ tid .idle)
          | some false => some (s.at_ tid (.sending filelist))
          | some true =>
              let s := s.at_ tid (.deleting name filelist)
              match f.owner with
              | none => some s
              | some a => some (s.confirm a)
  | _ => none

/-- The outcome of `request_TimeSheetInsertString` for the next element. Where it fails, the
file is opened, and so truncated. -/
def request (s : TimeSheetMgr) (tid : Nat) (reply : Option Bool) : Option TimeSheetMgr :=
  match s.pc tid with
  | .listing (a :: todo) vector_erase =>
      match s.heap.deref a with
      | none => none
      | some ts =>
          match reply with
          | some true =>
              let s := s.at_ tid (.listing todo (vector_erase ++ [a]))
              some ({ s with replied := s.replied ++ [a] }.confirm a)
          | some false => some (s.at_ tid (.listing todo vector_erase))
          | none =>
              some ((s.at_ tid (.saving a todo vector_erase)).setFile ts.m_time (some ⟨some a, []⟩))
  | _ => none

/-- The text is written and the file closed, and the exception is thrown and caught. A file
that was deleted meanwhile stays so. -/
def save (cfg : Config) (s : TimeSheetMgr) (tid : Nat) : Option TimeSheetMgr :=
  match s.pc tid with
  | .saving a todo vector_erase =>
      match s.heap.deref a with
      | none => none
      | some ts =>
          let f := (s.files ts.m_time).map fun f => ⟨some a, f.text ++ cfg.requestText ts⟩
          let s := (s.at_ tid (.listing todo vector_erase)).setFile ts.m_time f
          some { s with unconfirmed := s.unconfirmed ++ [a] }
  | _ => none

/-- One round of the loop over `vector_erase`: the object is deleted, then its pointer is
removed from the list. -/
def erase (s : TimeSheetMgr) (tid : Nat) : Option TimeSheetMgr :=
  match s.pc tid with
  | .listing [] (a :: vector_erase) =>
      let s := s.at_ tid (.listing [] vector_erase)
      some { s with heap := s.heap.free a, m_listTS := s.m_listTS.filter (· ≠ a) }
  | _ => none

/-- One step of one thread. -/
def step (cfg : Config) (s : TimeSheetMgr) : UploadLabel → Option TimeSheetMgr
  | .insert tid tm lab_no utype img =>
      match s.pc tid with
      | .idle => some (s.at_ tid (.inserting (.new tm lab_no utype img)))
      | _ => none
  | .push tid =>
      match s.pc tid, s.mtx with
      | .inserting ts, none => some ((s.pushBack ts).at_ tid .idle)
      | _, _ => none
  | .upload tid filelist =>
      match s.pc tid, filelist with
      | .idle, none => some s
      | .idle, some filelist =>
          if s.Lists filelist then some (s.at_ tid (.sending filelist)) else none
      | _, _ => none
  | .send tid reply => s.send tid reply
  | .delete tid =>
      match s.pc tid with
      | .deleting name filelist => some ((s.at_ tid (.sending filelist)).setFile name none)
      | _ => none
  | .lock tid =>
      match s.pc tid, s.mtx with
      | .sending [], none => some { s.at_ tid (.listing s.m_listTS []) with mtx := some tid }
      | _, _ => none
  | .request tid reply => s.request tid reply
  | .save tid => s.save cfg tid
  | .erase tid => s.erase tid
  | .unlock tid =>
      match s.pc tid with
      | .listing [] [] => some { s.at_ tid .idle with mtx := none }
      | _ => none

/-- An empty list over whatever files were left. -/
def start (files : Bytes → Option Bytes) : TimeSheetMgr where
  heap := []
  m_listTS := []
  mtx := none
  pc := fun _ => .idle
  files := fun name => (files name).map (SavedFile.mk none)
  replied := []
  acks := []
  unconfirmed := []

end TimeSheetMgr

def uploads (cfg : Config) : Machine TimeSheetMgr UploadLabel where
  step := TimeSheetMgr.step cfg

/-! An entry at one time, by any thread. -/

def entryTime : Tm := ⟨114, 9, 18, 9, 0, 0⟩

def entry (tid : Nat) : UploadLabel := .insert tid entryTime (ascii "LM00000811") 76 []

/-! ## The fields after a step -/

namespace TimeSheetMgr

section Fields

variable (s : TimeSheetMgr) (tid : Nat) (pc : Pc) (name : Bytes) (f : Option SavedFile)

@[simp] theorem at_mtx : (s.at_ tid pc).mtx = s.mtx := rfl
@[simp] theorem at_replied : (s.at_ tid pc).replied = s.replied := rfl
@[simp] theorem at_pc : (s.at_ tid pc).pc = Function.update s.pc tid pc := rfl

theorem at_self : (s.at_ tid pc).pc tid = pc := by rw [at_pc, Function.update_self]

@[simp] theorem setFile_pc : (s.setFile name f).pc = s.pc := rfl
@[simp] theorem setFile_files : (s.setFile name f).files = Function.update s.files name f := rfl

end Fields

/-! ## What a step can do -/

section Cases

variable {cfg : Config} {s t : TimeSheetMgr} {tid : Nat} {reply : Option Bool}

theorem insert_cases {tm : Tm} {lab_no img : Bytes} {utype : UInt8}
    (h : (uploads cfg).step s (.insert tid tm lab_no utype img) = some t) :
    s.pc tid = .idle ∧ t = s.at_ tid (.inserting (.new tm lab_no utype img)) := by
  simp only [uploads, step] at h
  split at h
  next hpc => exact ⟨hpc, (Option.some.inj h).symm⟩
  · cases h

theorem push_cases (h : (uploads cfg).step s (.push tid) = some t) :
    ∃ ts, s.pc tid = .inserting ts ∧ s.mtx = none ∧ t = (s.pushBack ts).at_ tid .idle := by
  simp only [uploads, step] at h
  split at h
  next ts hpc hm => exact ⟨ts, hpc, hm, (Option.some.inj h).symm⟩
  · cases h

theorem upload_cases {filelist : Option (List Bytes)}
    (h : (uploads cfg).step s (.upload tid filelist) = some t) :
    s.pc tid = .idle ∧ ((filelist = none ∧ t = s) ∨
      ∃ names, filelist = some names ∧ s.Lists names ∧ t = s.at_ tid (.sending names)) := by
  simp only [uploads, step] at h
  split at h
  next hpc => exact ⟨hpc, .inl ⟨rfl, (Option.some.inj h).symm⟩⟩
  next names hpc =>
    split at h
    next hl => exact ⟨hpc, .inr ⟨names, rfl, hl, (Option.some.inj h).symm⟩⟩
    · cases h
  · cases h

theorem delete_cases (h : (uploads cfg).step s (.delete tid) = some t) :
    ∃ name filelist, s.pc tid = .deleting name filelist ∧
      t = (s.at_ tid (.sending filelist)).setFile name none := by
  simp only [uploads, step] at h
  split at h
  next name filelist hpc => exact ⟨name, filelist, hpc, (Option.some.inj h).symm⟩
  · cases h

theorem lock_cases (h : (uploads cfg).step s (.lock tid) = some t) :
    s.pc tid = .sending [] ∧ s.mtx = none ∧
      t = { s.at_ tid (.listing s.m_listTS []) with mtx := some tid } := by
  simp only [uploads, step] at h
  split at h
  next hpc hm => exact ⟨hpc, hm, (Option.some.inj h).symm⟩
  · cases h

theorem unlock_cases (h : (uploads cfg).step s (.unlock tid) = some t) :
    s.pc tid = .listing [] [] ∧ t = { s.at_ tid .idle with mtx := none } := by
  simp only [uploads, step] at h
  split at h
  next hpc => exact ⟨hpc, (Option.some.inj h).symm⟩
  · cases h

theorem send_cases (h : s.send tid reply = some t) :
    ∃ name filelist f, s.pc tid = .sending (name :: filelist) ∧ s.files name = some f ∧
      ((reply = none ∧ t = s.at_ tid .idle) ∨
        (reply = some false ∧ t = s.at_ tid (.sending filelist)) ∨
        (reply = some true ∧ f.owner = none ∧ t = s.at_ tid (.deleting name filelist)) ∨
        ∃ a, reply = some true ∧ f.owner = some a ∧
          t = (s.at_ tid (.deleting name filelist)).confirm a) := by
  unfold send at h
  split at h
  next name filelist hpc =>
    split at h
    · cases h
    next f hf =>
      refine ⟨name, filelist, f, hpc, hf, ?_⟩
      split at h
      · cases h
        exact .inl ⟨rfl, rfl⟩
      · cases h
        exact .inr (.inl ⟨rfl, rfl⟩)
      · dsimp only at h
        split at h
        next ho =>
          cases h
          exact .inr (.inr (.inl ⟨rfl, ho, rfl⟩))
        next a ho =>
          cases h
          exact .inr (.inr (.inr ⟨a, rfl, ho, rfl⟩))
  · cases h

theorem request_cases (h : s.request tid reply = some t) :
    ∃ a todo vector_erase ts, s.pc tid = .listing (a :: todo) vector_erase ∧
      s.heap.deref a = some ts ∧
      ((reply = some true ∧
          t = { s.at_ tid (.listing todo (vector_erase ++ [a])) with
            replied := s.replied ++ [a] }.confirm a) ∨
        (reply = some false ∧ t = s.at_ tid (.listing todo vector_erase)) ∨
        (reply = none ∧
          t = (s.at_ tid (.saving a todo vector_erase)).setFile ts.m_time
            (some ⟨some a, []⟩))) := by
  unfold request at h
  split at h
  next a todo vector_erase hpc =>
    split at h
    · cases h
    next ts hts =>
      refine ⟨a, todo, vector_erase, ts, hpc, hts, ?_⟩
      split at h
      · cases h
        exact .inl ⟨rfl, rfl⟩
      · cases h
        exact .inr (.inl ⟨rfl, rfl⟩)
      · cases h
        exact .inr (.inr ⟨rfl, rfl⟩)
  · cases h

theorem save_cases (h : s.save cfg tid = some t) :
    ∃ a todo vector_erase ts, s.pc tid = .saving a todo vector_erase ∧
      s.heap.deref a = some ts ∧
      t = { (s.at_ tid (.listing todo vector_erase)).setFile ts.m_time
          ((s.files ts.m_time).map fun f => ⟨some a, f.text ++ cfg.requestText ts⟩) with
        unconfirmed := s.unconfirmed ++ [a] } := by
  unfold save at h
  split at h
  next a todo vector_erase hpc =>
    split at h
    · cases h
    next ts hts =>
      cases h
      exact ⟨a, todo, vector_erase, ts, hpc, hts, rfl⟩
  · cases h

theorem erase_cases (h : s.erase tid = some t) :
    ∃ a vector_erase, s.pc tid = .listing [] (a :: vector_erase) ∧
      t = { s.at_ tid (.listing [] vector_erase) with
        heap := s.heap.free a
        m_listTS := s.m_listTS.filter (· ≠ a) } := by
  unfold erase at h
  split at h
  next a vector_erase hpc =>
    cases h
    exact ⟨a, vector_erase, hpc, rfl⟩
  · cases h

end Cases

end TimeSheetMgr

/-! ## The mutex -/

/-- A thread is at the list when it requests, saves or removes elements of it. -/
def Pc.AtList : Pc → Prop
  | .listing _ _ | .saving _ _ _ => True
  | _ => False

/-- Only the thread that holds the mutex is at the list. -/
def Exclusive (s : TimeSheetMgr) : Prop := ∀ tid, (s.pc tid).AtList → s.mtx = some tid

section Mutex

variable {cfg : Config} {s t : TimeSheetMgr} {tid : Nat}

theorem Exclusive.update {pc : Pc} (h : Exclusive s) (hpc : t.pc = Function.update s.pc tid pc)
    (hm : t.mtx = s.mtx) (hat : pc.AtList → (s.pc tid).AtList) : Exclusive t := by
  intro i hi
  rw [hm]
  by_cases heq : i = tid
  · rw [hpc, heq, Function.update_self] at hi
    exact h i (heq ▸ hat hi)
  · rw [hpc, Function.update_of_ne heq] at hi
    exact h i hi

theorem Exclusive.lock (h : Exclusive s) (hm : s.mtx = none) (todo : List Nat) :
    Exclusive { s.at_ tid (.listing todo []) with mtx := some tid } := by
  intro i hi
  by_cases heq : i = tid
  · rw [heq]
  · change (Function.update s.pc tid _ i).AtList at hi
    rw [Function.update_of_ne heq] at hi
    cases hm.symm.trans (h i hi)

theorem Exclusive.unlock (h : Exclusive s) (hm : s.mtx = some tid) :
    Exclusive { s.at_ tid .idle with mtx := none } := by
  intro i hi
  change (Function.update s.pc tid _ i).AtList at hi
  by_cases heq : i = tid
  · rw [heq, Function.update_self] at hi
    exact hi.elim
  · rw [Function.update_of_ne heq] at hi
    exact absurd (Option.some.inj (hm.symm.trans (h i hi))).symm heq

theorem exclusive_step {l : UploadLabel} (h : Exclusive s)
    (hs : (uploads cfg).step s l = some t) : Exclusive t := by
  cases l with
  | insert tid tm lab_no utype img =>
      obtain ⟨_, rfl⟩ := TimeSheetMgr.insert_cases hs
      exact h.update rfl rfl False.elim
  | push tid =>
      obtain ⟨ts, _, _, rfl⟩ := TimeSheetMgr.push_cases hs
      exact h.update rfl rfl False.elim
  | upload tid filelist =>
      obtain ⟨_, ⟨_, rfl⟩ | ⟨names, _, _, rfl⟩⟩ := TimeSheetMgr.upload_cases hs
      · exact h
      · exact h.update rfl rfl False.elim
  | send tid reply =>
      obtain ⟨name, filelist, f, _, _, hcase⟩ := TimeSheetMgr.send_cases hs
      rcases hcase with ⟨_, rfl⟩ | ⟨_, rfl⟩ | ⟨_, _, rfl⟩ | ⟨a, _, _, rfl⟩
      · exact h.update rfl rfl False.elim
      · exact h.update rfl rfl False.elim
      · exact h.update rfl rfl False.elim
      · exact h.update rfl rfl False.elim
  | delete tid =>
      obtain ⟨name, filelist, _, rfl⟩ := TimeSheetMgr.delete_cases hs
      exact h.update rfl rfl False.elim
  | lock tid =>
      obtain ⟨_, hm, rfl⟩ := TimeSheetMgr.lock_cases hs
      exact h.lock hm s.m_listTS
  | request tid reply =>
      obtain ⟨a, todo, vector_erase, ts, hpc, _, hcase⟩ := TimeSheetMgr.request_cases hs
      have hat : (s.pc tid).AtList := hpc ▸ trivial
      rcases hcase with ⟨_, rfl⟩ | ⟨_, rfl⟩ | ⟨_, rfl⟩
      · exact h.update rfl rfl fun _ => hat
      · exact h.update rfl rfl fun _ => hat
      · exact h.update rfl rfl fun _ => hat
  | save tid =>
      obtain ⟨a, todo, vector_erase, ts, hpc, _, rfl⟩ := TimeSheetMgr.save_cases hs
      exact h.update rfl rfl fun _ => hpc ▸ trivial
  | erase tid =>
      obtain ⟨a, vector_erase, hpc, rfl⟩ := TimeSheetMgr.erase_cases hs
      exact h.update rfl rfl fun _ => hpc ▸ trivial
  | unlock tid =>
      obtain ⟨hpc, rfl⟩ := TimeSheetMgr.unlock_cases hs
      exact h.unlock (h tid (hpc ▸ trivial))

end Mutex

end Acu.Attendance
