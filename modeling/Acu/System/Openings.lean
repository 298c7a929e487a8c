import Acu.System.Threads

/-!
# Every opening has its time sheet

Whoever is let in is recorded: the door is opened as often as time sheets are inserted, and
each of them is pending until its own request is answered with true.
-/

namespace Acu.System

open Acu.Core Rfid Delegator Attendance Hardware

/-- The time sheet on its way into the list. -/
def inserting : Pc → List TimeSheet
  | .inserting ts => [ts]
  | _ => []

theorem inserting_idle : inserting .idle = [] := rfl

namespace Terminal

/-- The time sheets of all openings, in their order. -/
def sheets (s : Terminal) : List TimeSheet := s.visits.flatMap Visit.sheets

/-- The sheets that have come to the list, or are gone from it again. -/
def pushed (s : Terminal) : List TimeSheet := s.store.heap.map Slot.value

end Terminal

/-- Each call opens the door once and inserts one time sheet, for a record that lets its holder
pass, or neither. All sheets but one on its way have been pushed, in the order of the openings,
and outside the list phase the list holds those of them without a true reply to their own
request. -/
structure OpeningsRecorded (signedChar : Bool) (cfg : Settings) (s : Terminal) : Prop where
  lawful : ∀ v ∈ s.visits, v.Lawful signedChar cfg
  pushed : s.sheets = s.pushed ++ inserting (s.store.pc READER)
  pending : s.store.mtx = none → s.store.m_listTS = pendingOf s.store
  there : s.store.mtx = none → ∀ a ∈ s.store.m_listTS,
    s.store.heap.deref a = s.sheets[a]? ∧ (s.sheets[a]?).isSome

structure LedgerInv (signedChar : Bool) (cfg : Settings) (s : Terminal) : Prop where
  list : ListInv s.store
  lawful : ∀ v ∈ s.visits, v.Lawful signedChar cfg
  ledger : s.sheets = s.pushed ++ inserting (s.store.pc READER)
  reader : s.store.pc READER = .idle ∨ ∃ ts, s.store.pc READER = .inserting ts
  others : ∀ tid ts, s.store.pc tid = .inserting ts → tid = READER

section Steps

/-- Deleting an object leaves its value as history. -/
theorem map_value_free (h : Heap TimeSheet) (a : Nat) :
    (h.free a).map Slot.value = h.map Slot.value := by
  refine List.ext_getElem? fun b => ?_
  have hcontent := Heap.content_free h a b
  rwa [Heap.content, Heap.content, ← List.getElem?_map, ← List.getElem?_map] at hcontent

variable {acfg : Attendance.Config} {s t : TimeSheetMgr}

/-- A thread that stands neither idle nor at an insertion is another one. -/
theorem ne_reader {tid : Nat} {pc : Pc} (hpc : s.pc tid = pc) (hidle : pc ≠ .idle)
    (hnew : ∀ ts, pc ≠ .inserting ts)
    (hreader : s.pc READER = .idle ∨ ∃ ts, s.pc READER = .inserting ts) : tid ≠ READER := by
  rintro rfl
  rcases hreader with h | ⟨ts, h⟩
  · exact hidle (hpc.symm.trans h)
  · exact hnew ts (hpc.symm.trans h)

/-- A step of another thread that begins no insertion. -/
theorem other_moves {tid : Nat} {pc : Pc} (hpc : t.pc = Function.update s.pc tid pc)
    (hne : tid ≠ READER) (hnew : ∀ ts, pc ≠ .inserting ts) :
    t.pc READER = s.pc READER ∧ ∀ tid ts, t.pc tid = .inserting ts → s.pc tid = .inserting ts := by
  refine ⟨?_, fun i ts hi => ?_⟩
  · rw [hpc, Function.update_of_ne (Ne.symm hne)]
  · rw [hpc] at hi
    by_cases heq : i = tid
    · rw [heq, Function.update_self] at hi
      exact absurd hi (hnew ts)
    · rwa [Function.update_of_ne heq] at hi

/-- A step of the threads pushes the sheet that its thread inserts, or leaves all sheets and the
threads that insert as they are. -/
theorem act_pushes {l : UploadLabel} (hl : ofThreads l = true)
    (hreader : s.pc READER = .idle ∨ ∃ ts, s.pc READER = .inserting ts)
    (h : (uploads acfg).step s l = some t) :
    (∃ tid ts, s.pc tid = .inserting ts ∧ t.heap.map Slot.value = s.heap.map Slot.value ++ [ts] ∧
        t.pc = Function.update s.pc tid .idle) ∨
      (t.heap.map Slot.value = s.heap.map Slot.value ∧ t.pc READER = s.pc READER ∧
        ∀ tid ts, t.pc tid = .inserting ts → s.pc tid = .inserting ts) := by
  cases l with
  | insert tid tm lab_no utype img => cases hl
  | push tid =>
      obtain ⟨ts, hpc, -, rfl⟩ := TimeSheetMgr.push_cases h
      refine .inl ⟨tid, ts, hpc, ?_, rfl⟩
      exact List.map_append
  | upload tid filelist =>
      obtain ⟨hpc, ⟨-, rfl⟩ | ⟨names, -, -, rfl⟩⟩ := TimeSheetMgr.upload_cases h
      · exact .inr ⟨rfl, rfl, fun _ _ h => h⟩
      · have hne : tid ≠ READER := by simpa [ofThreads] using hl
        exact .inr ⟨rfl, other_moves rfl hne fun ts h => by cases h⟩
  | send tid reply =>
      obtain ⟨name, filelist, f, hpc, -, hcase⟩ := TimeSheetMgr.send_cases h
      have hne := ne_reader hpc (by simp) (by simp) hreader
      rcases hcase with ⟨-, rfl⟩ | ⟨-, rfl⟩ | ⟨-, -, rfl⟩ | ⟨a, -, -, rfl⟩
      · exact .inr ⟨rfl, other_moves rfl hne (by simp)⟩
      · exact .inr ⟨rfl, other_moves rfl hne (by simp)⟩
      · exact .inr ⟨rfl, other_moves rfl hne (by simp)⟩
      · exact .inr ⟨rfl, other_moves rfl hne (by simp)⟩
  | delete tid =>
      obtain ⟨name, filelist, hpc, rfl⟩ := TimeSheetMgr.delete_cases h
      have hne := ne_reader hpc (by simp) (by simp) hreader
      exact .inr ⟨rfl, other_moves rfl hne (by simp)⟩
  | lock tid =>
      obtain ⟨hpc, -, rfl⟩ := TimeSheetMgr.lock_cases h
      have hne := ne_reader hpc (by simp) (by simp) hreader
      exact .inr ⟨rfl, other_moves rfl hne (by simp)⟩
  | request tid reply =>
      obtain ⟨a, todo, vector_erase, ts, hpc, -, hcase⟩ := TimeSheetMgr.request_cases h
      have hne := ne_reader hpc (by simp) (by simp) hreader
      rcases hcase with ⟨-, rfl⟩ | ⟨-, rfl⟩ | ⟨-, rfl⟩
      · exact .inr ⟨rfl, other_moves rfl hne (by simp)⟩
      · exact .inr ⟨rfl, other_moves rfl hne (by simp)⟩
      · exact .inr ⟨rfl, other_moves rfl hne (by simp)⟩
  | save tid =>
      obtain ⟨a, todo, vector_erase, ts, hpc, -, rfl⟩ := TimeSheetMgr.save_cases h
      have hne := ne_reader hpc (by simp) (by simp) hreader
      exact .inr ⟨rfl, other_moves rfl hne (by simp)⟩
  | erase tid =>
      obtain ⟨a, vector_erase, hpc, rfl⟩ := TimeSheetMgr.erase_cases h
      have hne := ne_reader hpc (by simp) (by simp) hreader
      exact .inr ⟨map_value_free s.heap a, other_moves rfl hne (by simp)⟩
  | unlock tid =>
      obtain ⟨hpc, rfl⟩ := TimeSheetMgr.unlock_cases h
      have hne := ne_reader hpc (by simp) (by simp) hreader
      exact .inr ⟨rfl, other_moves rfl hne (by simp)⟩

end Steps

section Machine

variable {mode : RfidMode} {signedChar : Bool} {cfg : Settings} {acfg : Attendance.Config}

theorem LedgerInv.recorded {s : Terminal} (h : LedgerInv signedChar cfg s) :
    OpeningsRecorded signedChar cfg s where
  lawful := h.lawful
  pushed := h.ledger
  pending := h.list.unlocked
  there _ a ha := by
    obtain ⟨ts, hts⟩ := h.list.live a ha
    have hvalue : s.pushed[a]? = some ts := by
      rw [Terminal.pushed, List.getElem?_map]
      exact Heap.content_of_deref hts
    have hsheet : s.sheets[a]? = some ts := by
      rw [h.ledger]
      rw [List.getElem?_append_left (List.getElem?_eq_some_iff.mp hvalue).1, hvalue]
    rw [hts, hsheet]
    exact ⟨rfl, rfl⟩

theorem ledgerInv_visit {s s' : Terminal} {t : Int} {number : Bytes} {c : Card}
    (h : LedgerInv signedChar cfg s) (hidle : s.store.pc READER = .idle)
    (hs : s.onData signedChar cfg t number c = some s') : LedgerInv signedChar cfg s' := by
  obtain ⟨v, -, -, -, hlawful, hvisits, -, hcase⟩ := Terminal.onData_cases hs
  have hledger := h.ledger
  rw [hidle, inserting_idle, List.append_nil] at hledger
  have hsheets : s'.sheets = s.sheets ++ v.sheets := by
    rw [Terminal.sheets, hvisits, List.flatMap_append]
    simp [Terminal.sheets]
  have hall : ∀ w ∈ s'.visits, w.Lawful signedChar cfg := by
    rw [hvisits]
    intro w hw
    rcases List.mem_append.mp hw with hw | hw
    · exact h.lawful w hw
    · exact List.mem_singleton.mp hw ▸ hlawful
  rcases hcase with ⟨ts, hv, hstore, -⟩ | ⟨hv, hstore, -⟩
  · have hpc : s'.store.pc = Function.update s.store.pc READER (.inserting ts) := by
      rw [hstore]
      rfl
    have hself : s'.store.pc READER = .inserting ts := by rw [hpc, Function.update_self]
    refine ⟨?_, hall, ?_, .inr ⟨ts, hself⟩, fun tid ts' htid => ?_⟩
    · rw [hstore]
      exact h.list.elsewhere (hidle ▸ id) id rfl rfl rfl rfl rfl
    · rw [hself, hsheets, hv, hledger, Terminal.pushed, Terminal.pushed, hstore]
      rfl
    · by_contra hne
      rw [hpc, Function.update_of_ne hne] at htid
      exact hne (h.others tid ts' htid)
  · refine ⟨hstore ▸ h.list, hall, ?_, hstore ▸ h.reader, hstore ▸ h.others⟩
    rw [hsheets, hv, List.append_nil, hledger, Terminal.pushed, Terminal.pushed, hstore, hidle]
    exact (List.append_nil _).symm

theorem ledgerInv_step (s : Terminal) (l : Label) (s' : Terminal) (h : LedgerInv signedChar cfg s)
    (hs : (terminal mode signedChar cfg acfg).step s l = some s') :
    LedgerInv signedChar cfg s' := by
  cases l with
  | tick =>
      obtain rfl := Option.some.inj hs
      exact ⟨h.list, h.lawful, h.ledger, h.reader, h.others⟩
  | round i c =>
      obtain ⟨hidle, ⟨rfl, -⟩ | ⟨o, number, -, hcall⟩⟩ := Terminal.round_cases hs
      · exact ⟨h.list, h.lawful, h.ledger, h.reader, h.others⟩
      · have hinv : LedgerInv signedChar cfg
            { s with reader := SerialRfid.round mode.requestData s.reader i } :=
          ⟨h.list, h.lawful, h.ledger, h.reader, h.others⟩
        exact ledgerInv_visit hinv hidle hcall
  | act l =>
      obtain ⟨hl, store, hstore, rfl⟩ := Terminal.act_cases hs
      have hlist := listInv_step s.store l store h.list hstore
      obtain ⟨tid, ts, hpc, hheap, hnext⟩ | ⟨hheap, hreader, hothers⟩ :=
        act_pushes hl h.reader hstore
      · -- only the reader inserts, so that the sheet is the last one
        obtain rfl := h.others tid ts hpc
        have hself : store.pc READER = .idle := by rw [hnext, Function.update_self]
        refine ⟨hlist, h.lawful, ?_, .inl hself, fun tid ts' htid => ?_⟩
        · have hledger := h.ledger
          rw [hpc, inserting] at hledger
          rw [Terminal.pushed, hheap, hself, inserting_idle, List.append_nil]
          exact hledger
        · by_contra hne
          rw [hnext, Function.update_of_ne hne] at htid
          exact hne (h.others tid ts' htid)
      · refine ⟨hlist, h.lawful, ?_, hreader ▸ h.reader, fun tid ts htid =>
          h.others tid ts (hothers tid ts htid)⟩
        rw [Terminal.pushed, hheap, hreader]
        exact h.ledger

end Machine

/-- Along every interleaving of the threads, whatever the cards, the server, the database and
the camera bring: no one is let in without a time sheet, and none is lost from the list. -/
theorem openings_recorded (mode : RfidMode) (signedChar : Bool) (cfg : Settings)
    (acfg : Attendance.Config) (m_serialnumberBuf : Bytes) (m_bNetworkAvailable : Bool) (now : Int)
    (files : Bytes → Option Bytes) (labels : List Label) :
    (terminal mode signedChar cfg acfg).AllStates (OpeningsRecorded signedChar cfg)
      (.start m_serialnumberBuf m_bNetworkAvailable now files) labels := by
  refine Machine.allStates_of_preserved (fun _ h => h.recorded) ledgerInv_step ?_ labels
  exact ⟨listInv_start files, fun _ h => (nomatch h), rfl, .inl rfl, fun _ _ h => (nomatch h)⟩

end Acu.System
