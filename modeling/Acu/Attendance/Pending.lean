import Acu.Attendance.Upload

/-!
# The list of pending time sheets

Whatever the threads do, the list holds outside the list phase what no request
was answered true for, in the order of insertion.
-/

namespace Acu.Attendance

open Acu.Core

/-- The time sheets without a true reply to their own request, in the order of insertion. -/
def pendingOf (s : TimeSheetMgr) : List Nat :=
  (List.range s.heap.length).filter fun a => decide (a ∉ s.replied)

/-- Outside the list phase, the list is what is pending, of objects that are there. -/
def ListExact (s : TimeSheetMgr) : Prop :=
  s.mtx = none → s.m_listTS = pendingOf s ∧ ∀ a ∈ s.m_listTS, ∃ ts, s.heap.deref a = some ts

/-- The list while a thread holds the mutex, with the elements `todo` still to be requested
and those of `vector_erase` still to be removed. -/
structure Held (s : TimeSheetMgr) (todo vector_erase : List Nat) : Prop where
  list : s.m_listTS =
    (List.range s.heap.length).filter fun a => decide (a ∉ s.replied ∨ a ∈ vector_erase)
  erased : ∀ a ∈ vector_erase, a ∈ s.replied
  erase_nodup : vector_erase.Nodup
  todo_nodup : todo.Nodup
  waiting : ∀ a ∈ todo, a ∈ s.m_listTS ∧ a ∉ s.replied

/-- The list phase of a thread. -/
inductive InList (s : TimeSheetMgr) (tid : Nat) : List Nat → List Nat → Prop where
  | listing {todo vector_erase} (h : s.pc tid = .listing todo vector_erase) :
      InList s tid todo vector_erase
  | saving {a todo vector_erase} (h : s.pc tid = .saving a todo vector_erase)
      (hmem : a ∈ s.m_listTS) (hnew : a ∉ s.replied) (htodo : a ∉ todo) :
      InList s tid todo vector_erase

structure ListInv (s : TimeSheetMgr) : Prop where
  unlocked : s.mtx = none → s.m_listTS = pendingOf s
  locked : ∀ tid, s.mtx = some tid → ∃ todo vector_erase,
    InList s tid todo vector_erase ∧ Held s todo vector_erase
  holder : Exclusive s
  live : ∀ a ∈ s.m_listTS, ∃ ts, s.heap.deref a = some ts
  known : ∀ a ∈ s.replied, a < s.heap.length

theorem ListInv.exact {s : TimeSheetMgr} (h : ListInv s) : ListExact s :=
  fun hm => ⟨h.unlocked hm, h.live⟩

theorem listInv_start (files : Bytes → Option Bytes) : ListInv (TimeSheetMgr.start files) where
  unlocked _ := rfl
  locked _ h := nomatch h
  holder _ h := h.elim
  live _ h := nomatch h
  known _ h := nomatch h

section Steps

variable {s : TimeSheetMgr} {tid : Nat}

/-- A step that leaves the list alone, by a thread that is not at the list before or after. -/
theorem ListInv.elsewhere {t : TimeSheetMgr} {pc : Pc} (h : ListInv s)
    (hold : ¬ (s.pc tid).AtList) (hnew : ¬ pc.AtList) (hheap : t.heap = s.heap)
    (hlist : t.m_listTS = s.m_listTS) (hmtx : t.mtx = s.mtx) (hreplied : t.replied = s.replied)
    (hpc : t.pc = Function.update s.pc tid pc) : ListInv t := by
  have hholder : Exclusive t := h.holder.update hpc hmtx fun hat => absurd hat hnew
  have hother : ∀ tid', s.mtx = some tid' → t.pc tid' = s.pc tid' := by
    intro tid' hm
    rw [hpc]
    refine Function.update_of_ne ?_ _ _
    rintro rfl
    obtain ⟨todo, vector_erase, hin, _⟩ := h.locked _ hm
    cases hin with
    | listing hl => rw [hl] at hold; exact hold trivial
    | saving hl => rw [hl] at hold; exact hold trivial
  constructor
  · intro hm
    rw [hlist, pendingOf, hheap, hreplied]
    exact h.unlocked (hmtx ▸ hm)
  · intro tid' hm
    rw [hmtx] at hm
    obtain ⟨todo, vector_erase, hin, hheld⟩ := h.locked tid' hm
    refine ⟨todo, vector_erase, ?_, ?_⟩
    · cases hin with
      | listing hl => exact .listing ((hother tid' hm).trans hl)
      | saving hl hmem hr ht =>
          exact .saving ((hother tid' hm).trans hl) (hlist ▸ hmem) (hreplied ▸ hr) ht
    · refine ⟨?_, hreplied ▸ hheld.erased, hheld.erase_nodup, hheld.todo_nodup, ?_⟩
      · rw [hlist, hheap, hreplied]
        exact hheld.list
      · rw [hlist, hreplied]
        exact hheld.waiting
  · intro tid' hat
    rw [hmtx]
    by_cases heq : tid' = tid
    · rw [hpc, heq, Function.update_self] at hat
      exact absurd hat hnew
    · rw [hpc, Function.update_of_ne heq] at hat
      exact h.holder tid' hat
  · rw [hlist, hheap]
    exact h.live
  · rw [hreplied, hheap]
    exact h.known

/-- A pushed time sheet is the newest one that is pending. -/
theorem ListInv.push (h : ListInv s) (ts : TimeSheet) (hm : s.mtx = none) :
    ListInv ((s.pushBack ts).at_ tid .idle) := by
  have hlen : (s.heap.allocAll [ts]).length = s.heap.length + 1 := by simp
  have hnew : s.heap.length ∉ s.replied := fun hmem => Nat.lt_irrefl _ (h.known _ hmem)
  constructor
  · intro _
    change s.m_listTS ++ [s.heap.length] =
      (List.range (s.heap.allocAll [ts]).length).filter fun a => decide (a ∉ s.replied)
    rw [hlen, List.range_succ, List.filter_append, h.unlocked hm]
    simp [pendingOf, hnew]
  · intro tid' hm'
    rw [TimeSheetMgr.at_mtx] at hm'
    cases hm.symm.trans hm'
  · exact h.holder.update rfl rfl False.elim
  · intro a ha
    change ∃ ts', (s.heap.allocAll [ts]).deref a = some ts'
    rcases List.mem_append.mp ha with ha | ha
    · obtain ⟨ts', hts⟩ := h.live a ha
      exact ⟨ts', by rw [Heap.deref_allocAll_old (Heap.lt_length_of_deref hts), hts]⟩
    · rw [List.mem_singleton.mp ha]
      exact ⟨ts, Heap.deref_allocAll_new s.heap [ts] 0⟩
  · intro a ha
    change a < (s.heap.allocAll [ts]).length
    rw [hlen]
    exact Nat.lt_succ_of_lt (h.known a ha)

/-- What the thread at the list is about, when it holds the mutex. -/
theorem ListInv.held_of_listing {todo vector_erase : List Nat} (h : ListInv s)
    (hpc : s.pc tid = .listing todo vector_erase) :
    s.mtx = some tid ∧ Held s todo vector_erase := by
  have hm : s.mtx = some tid := h.holder tid (by rw [hpc]; trivial)
  obtain ⟨todo', erase', hin, hheld⟩ := h.locked tid hm
  cases hin with
  | listing hl =>
      cases hpc.symm.trans hl
      exact ⟨hm, hheld⟩
  | saving hl => cases hpc.symm.trans hl

theorem ListInv.held_of_saving {a : Nat} {todo vector_erase : List Nat} (h : ListInv s)
    (hpc : s.pc tid = .saving a todo vector_erase) :
    s.mtx = some tid ∧ Held s todo vector_erase ∧ a ∈ s.m_listTS ∧ a ∉ s.replied ∧ a ∉ todo := by
  have hm : s.mtx = some tid := h.holder tid (by rw [hpc]; trivial)
  obtain ⟨todo', erase', hin, hheld⟩ := h.locked tid hm
  cases hin with
  | listing hl => cases hpc.symm.trans hl
  | saving hl hmem hr ht =>
      cases hpc.symm.trans hl
      exact ⟨hm, hheld, hmem, hr, ht⟩

/-- A step of the thread that holds the mutex, which stays at the list. -/
theorem ListInv.holding {t : TimeSheetMgr} {pc : Pc} {todo vector_erase : List Nat}
    (h : ListInv s) (hm : s.mtx = some tid) (hmtx : t.mtx = s.mtx)
    (hpc : t.pc = Function.update s.pc tid pc) (hin : InList t tid todo vector_erase)
    (hheld : Held t todo vector_erase) (hlive : ∀ a ∈ t.m_listTS, ∃ ts, t.heap.deref a = some ts)
    (hknown : ∀ a ∈ t.replied, a < t.heap.length) : ListInv t := by
  have hat : (s.pc tid).AtList := by
    obtain ⟨_, _, hin', _⟩ := h.locked tid hm
    cases hin' with
    | listing hl => rw [hl]; trivial
    | saving hl => rw [hl]; trivial
  refine ⟨fun hnone => ?_, fun tid' hm' => ?_, h.holder.update hpc hmtx fun _ => hat, hlive, hknown⟩
  · rw [hmtx, hm] at hnone
    cases hnone
  · rw [hmtx, hm] at hm'
    cases hm'
    exact ⟨todo, vector_erase, hin, hheld⟩

theorem ListInv.request {t : TimeSheetMgr} {reply : Option Bool} (h : ListInv s)
    (ht : s.request tid reply = some t) : ListInv t := by
  obtain ⟨a, todo, vector_erase, ts, hpc, hts, hcase⟩ := TimeSheetMgr.request_cases ht
  obtain ⟨hm, hheld⟩ := h.held_of_listing hpc
  obtain ⟨hmem, hnew⟩ := hheld.waiting a List.mem_cons_self
  obtain ⟨htodo, hnodup⟩ := List.nodup_cons.mp hheld.todo_nodup
  rcases hcase with ⟨_, rfl⟩ | ⟨_, rfl⟩ | ⟨_, rfl⟩
  · have hlt : a < s.heap.length := Heap.lt_length_of_deref hts
    refine h.holding hm rfl rfl (.listing (Function.update_self tid _ s.pc)) ?_ h.live ?_
    · refine ⟨?_, ?_, ?_, hnodup, ?_⟩
      · -- the element leaves the pending ones and enters `vector_erase`, so the list stays
        change s.m_listTS = (List.range s.heap.length).filter
          fun x => decide (x ∉ s.replied ++ [a] ∨ x ∈ vector_erase ++ [a])
        rw [hheld.list]
        refine List.filter_congr fun x _ => ?_
        by_cases hx : x = a
        · subst hx
          simp [hnew]
        · simp [hx]
      · intro x hx
        change x ∈ s.replied ++ [a]
        rcases List.mem_append.mp hx with hx | hx
        · exact List.mem_append_left _ (hheld.erased x hx)
        · exact List.mem_append_right _ hx
      · have hfresh : a ∉ vector_erase := fun ha => hnew (hheld.erased a ha)
        refine List.nodup_append.mpr ⟨hheld.erase_nodup, List.pairwise_singleton _ a, ?_⟩
        rintro x hx y hy rfl
        exact hfresh (List.mem_singleton.mp hy ▸ hx)
      · intro x hx
        obtain ⟨hxmem, hxnew⟩ := hheld.waiting x (List.mem_cons_of_mem _ hx)
        refine ⟨hxmem, ?_⟩
        change x ∉ s.replied ++ [a]
        rw [List.mem_append, List.mem_singleton]
        rintro (hr | rfl)
        · exact hxnew hr
        · exact htodo hx
    · intro x hx
      rcases List.mem_append.mp hx with hx | hx
      · exact h.known x hx
      · exact List.mem_singleton.mp hx ▸ hlt
  · refine h.holding hm rfl rfl (.listing (Function.update_self tid _ s.pc)) ?_ h.live h.known
    exact ⟨hheld.list, hheld.erased, hheld.erase_nodup, hnodup,
      fun x hx => hheld.waiting x (List.mem_cons_of_mem _ hx)⟩
  · refine h.holding hm rfl rfl
      (.saving (Function.update_self tid _ s.pc) hmem hnew htodo) ?_ h.live h.known
    exact ⟨hheld.list, hheld.erased, hheld.erase_nodup, hnodup,
      fun x hx => hheld.waiting x (List.mem_cons_of_mem _ hx)⟩

theorem ListInv.save {cfg : Config} {t : TimeSheetMgr} (h : ListInv s)
    (ht : s.save cfg tid = some t) : ListInv t := by
  obtain ⟨a, todo, vector_erase, ts, hpc, _, rfl⟩ := TimeSheetMgr.save_cases ht
  obtain ⟨hm, hheld, _⟩ := h.held_of_saving hpc
  refine h.holding hm rfl rfl (.listing (Function.update_self tid _ s.pc)) ?_ h.live h.known
  exact ⟨hheld.list, hheld.erased, hheld.erase_nodup, hheld.todo_nodup, hheld.waiting⟩

theorem ListInv.erase {t : TimeSheetMgr} (h : ListInv s) (ht : s.erase tid = some t) :
    ListInv t := by
  obtain ⟨a, vector_erase, hpc, rfl⟩ := TimeSheetMgr.erase_cases ht
  obtain ⟨hm, hheld⟩ := h.held_of_listing hpc
  obtain ⟨hfresh, hnodup⟩ := List.nodup_cons.mp hheld.erase_nodup
  have hreplied : a ∈ s.replied := hheld.erased a List.mem_cons_self
  refine h.holding hm rfl rfl (.listing (Function.update_self tid _ s.pc)) ?_ ?_ ?_
  · refine ⟨?_, fun x hx => hheld.erased x (List.mem_cons_of_mem _ hx), hnodup, List.nodup_nil,
      fun x hx => nomatch hx⟩
    change s.m_listTS.filter (· ≠ a) = (List.range (s.heap.free a).length).filter
      fun x => decide (x ∉ s.replied ∨ x ∈ vector_erase)
    rw [Heap.length_free, hheld.list, List.filter_filter]
    refine List.filter_congr fun x _ => ?_
    by_cases hx : x = a
    · subst hx
      simp [hreplied, hfresh]
    · simp [hx]
  · intro x hx
    obtain ⟨hx, hne⟩ := List.mem_filter.mp hx
    obtain ⟨ts, hts⟩ := h.live x hx
    have hne : x ≠ a := by simpa using hne
    exact ⟨ts, (Heap.deref_free_of_ne (Ne.symm hne)).trans hts⟩
  · intro x hx
    change x < (s.heap.free a).length
    rw [Heap.length_free]
    exact h.known x hx

theorem ListInv.lock (h : ListInv s) (hm : s.mtx = none) :
    ListInv { s.at_ tid (.listing s.m_listTS []) with mtx := some tid } := by
  have hlist := h.unlocked hm
  refine ⟨fun hnone => (nomatch hnone), fun tid' hm' => ?_, h.holder.lock hm _, h.live, h.known⟩
  cases hm'
  refine ⟨s.m_listTS, [], .listing (Function.update_self tid _ s.pc), ?_⟩
  refine ⟨?_, fun _ hx => (nomatch hx), List.nodup_nil, ?_, fun x hx => ⟨hx, ?_⟩⟩
  · change s.m_listTS = _
    rw [hlist]
    exact List.filter_congr fun x _ => by simp
  · rw [hlist]
    exact List.nodup_range.filter _
  · rw [hlist] at hx
    simpa using (List.mem_filter.mp hx).2

theorem ListInv.unlock (h : ListInv s) (hpc : s.pc tid = .listing [] []) :
    ListInv { s.at_ tid .idle with mtx := none } := by
  obtain ⟨hm, hheld⟩ := h.held_of_listing hpc
  refine ⟨fun _ => ?_, fun tid' hm' => (nomatch hm'), h.holder.unlock hm, h.live, h.known⟩
  change s.m_listTS = (List.range s.heap.length).filter fun a => decide (a ∉ s.replied)
  rw [hheld.list]
  exact List.filter_congr fun x _ => by simp

end Steps

theorem listInv_step {cfg : Config} (s : TimeSheetMgr) (l : UploadLabel) (t : TimeSheetMgr)
    (h : ListInv s) (hs : (uploads cfg).step s l = some t) : ListInv t := by
  cases l with
  | insert tid tm lab_no utype img =>
      obtain ⟨hpc, rfl⟩ := TimeSheetMgr.insert_cases hs
      exact h.elsewhere (hpc ▸ id) id rfl rfl rfl rfl rfl
  | push tid =>
      obtain ⟨ts, _, hm, rfl⟩ := TimeSheetMgr.push_cases hs
      exact h.push ts hm
  | upload tid filelist =>
      obtain ⟨hpc, ⟨_, rfl⟩ | ⟨names, _, _, rfl⟩⟩ := TimeSheetMgr.upload_cases hs
      · exact h
      · exact h.elsewhere (hpc ▸ id) id rfl rfl rfl rfl rfl
  | send tid reply =>
      obtain ⟨name, filelist, f, hpc, _, hcase⟩ := TimeSheetMgr.send_cases hs
      have hat : ¬ (s.pc tid).AtList := hpc ▸ id
      rcases hcase with ⟨_, rfl⟩ | ⟨_, rfl⟩ | ⟨_, _, rfl⟩ | ⟨a, _, _, rfl⟩
      · exact h.elsewhere hat id rfl rfl rfl rfl rfl
      · exact h.elsewhere hat id rfl rfl rfl rfl rfl
      · exact h.elsewhere hat id rfl rfl rfl rfl rfl
      · exact h.elsewhere hat id rfl rfl rfl rfl rfl
  | delete tid =>
      obtain ⟨name, filelist, hpc, rfl⟩ := TimeSheetMgr.delete_cases hs
      exact h.elsewhere (hpc ▸ id) id rfl rfl rfl rfl rfl
  | lock tid =>
      obtain ⟨_, hm, rfl⟩ := TimeSheetMgr.lock_cases hs
      exact h.lock hm
  | request tid reply => exact h.request hs
  | save tid => exact h.save hs
  | erase tid => exact h.erase hs
  | unlock tid =>
      obtain ⟨hpc, rfl⟩ := TimeSheetMgr.unlock_cases hs
      exact h.unlock hpc

end Acu.Attendance
