import Mathlib.Data.List.Nodup
import Acu.Attendance.Pending

/-!
# True replies to one time sheet

A time sheet whose request failed is in a file and still in the list. While each
true reply finds its time sheet in one of the two places only, no time sheet is
acknowledged twice; from any other true reply a second one can follow.
-/

namespace Acu.Attendance

open Acu.Core

def AcknowledgedOnce (s : TimeSheetMgr) : Prop := ∀ a, s.acks.count a ≤ 1

/-- A file was saved for the time sheet `a`, and holds its request still. -/
def TimeSheetMgr.InStore (s : TimeSheetMgr) (a : Nat) : Prop :=
  ∃ name f, s.files name = some f ∧ f.owner = some a

/-- What is answered true is not in the list and in the store at once. -/
def OnePlace (s : TimeSheetMgr) : UploadLabel → Prop
  | .request tid (some true) =>
      ∀ a todo vector_erase, s.pc tid = .listing (a :: todo) vector_erase → ¬ s.InStore a
  | .send tid (some true) =>
      ∀ name filelist f a, s.pc tid = .sending (name :: filelist) → s.files name = some f →
        f.owner = some a → a ∉ s.m_listTS
  | _ => True

/-! ## Runs with each reply in one place -/

/-- Only the requests of the list are ever answered true: what was saved in a file stays in
the list. -/
structure OncePlaced (s : TimeSheetMgr) : Prop where
  list : ListInv s
  acks : s.acks = s.replied
  nodup : s.replied.Nodup
  stored : ∀ a, s.InStore a → a ∈ s.m_listTS ∧ a ∉ s.replied

theorem OncePlaced.once {s : TimeSheetMgr} (h : OncePlaced s) : AcknowledgedOnce s := by
  intro a
  rw [h.acks]
  exact List.nodup_iff_count_le_one.mp h.nodup a

theorem oncePlaced_start (files : Bytes → Option Bytes) :
    OncePlaced (TimeSheetMgr.start files) where
  list := listInv_start files
  acks := rfl
  nodup := List.nodup_nil
  stored := by
    rintro a ⟨name, f, hf, ho⟩
    obtain ⟨text, _, rfl⟩ := Option.map_eq_some_iff.mp hf
    cases ho

section Steps

variable {cfg : Config} {s t : TimeSheetMgr}

/-- A step without a true reply that neither shortens the list nor saves a file. -/
theorem OncePlaced.quiet (h : OncePlaced s) (hlist : ListInv t) (hacks : t.acks = s.acks)
    (hreplied : t.replied = s.replied) (hstored : ∀ a, t.InStore a → s.InStore a)
    (hmem : ∀ a ∈ s.m_listTS, a ∈ t.m_listTS) : OncePlaced t := by
  refine ⟨hlist, ?_, hreplied ▸ h.nodup, fun a ha => ?_⟩
  · rw [hacks, hreplied, h.acks]
  · obtain ⟨hm, hr⟩ := h.stored a (hstored a ha)
    exact ⟨hmem a hm, hreplied ▸ hr⟩

/-- A file set to the time sheet `a`, or removed, leaves the others. -/
theorem inStore_setFile {name : Bytes} {f : Option SavedFile} {b : Nat}
    (hb : (s.setFile name f).InStore b) : s.InStore b ∨ ∃ g, f = some g ∧ g.owner = some b := by
  rcases hb with ⟨n, g, hg, ho⟩
  rw [TimeSheetMgr.setFile_files] at hg
  by_cases hn : n = name
  · rw [hn, Function.update_self] at hg
    exact .inr ⟨g, hg, ho⟩
  · rw [Function.update_of_ne hn] at hg
    exact .inl ⟨n, g, hg, ho⟩

theorem oncePlaced_request {tid : Nat} {reply : Option Bool} (h : OncePlaced s)
    (hg : OnePlace s (.request tid reply)) (hs : s.request tid reply = some t)
    (hlist : ListInv t) : OncePlaced t := by
  obtain ⟨a, todo, vector_erase, ts, hpc, _, hcase⟩ := TimeSheetMgr.request_cases hs
  obtain ⟨hmem, hnew⟩ := (h.list.held_of_listing hpc).2.waiting a List.mem_cons_self
  rcases hcase with ⟨rfl, rfl⟩ | ⟨_, rfl⟩ | ⟨_, rfl⟩
  · have hout : ¬ s.InStore a := hg a todo vector_erase hpc
    refine ⟨hlist, ?_, ?_, fun b hb => ?_⟩
    · exact congrArg (· ++ [a]) h.acks
    · have hconcat := h.nodup.concat hnew
      rwa [List.concat_eq_append] at hconcat
    · obtain ⟨hbm, hbr⟩ := h.stored b hb
      refine ⟨hbm, fun hr => ?_⟩
      rcases List.mem_append.mp hr with hr | hr
      · exact hbr hr
      · exact hout (List.mem_singleton.mp hr ▸ hb)
  · exact h.quiet hlist rfl rfl (fun _ hb => hb) fun _ hb => hb
  · -- the file is saved for an element of the list
    refine ⟨hlist, h.acks, h.nodup, fun b hb => ?_⟩
    rcases inStore_setFile hb with hb | ⟨g, hg, ho⟩
    · exact h.stored b hb
    · cases hg
      cases ho
      exact ⟨hmem, hnew⟩

theorem oncePlaced_step (s : TimeSheetMgr) (l : UploadLabel) (t : TimeSheetMgr)
    (h : OncePlaced s) (hg : OnePlace s l) (hs : (uploads cfg).step s l = some t) :
    OncePlaced t := by
  have hlist : ListInv t := listInv_step s l t h.list hs
  cases l with
  | insert tid tm lab_no utype img =>
      obtain ⟨_, rfl⟩ := TimeSheetMgr.insert_cases hs
      exact h.quiet hlist rfl rfl (fun _ hb => hb) fun _ hb => hb
  | push tid =>
      obtain ⟨ts, _, _, rfl⟩ := TimeSheetMgr.push_cases hs
      exact h.quiet hlist rfl rfl (fun _ hb => hb) fun _ hb => List.mem_append_left _ hb
  | upload tid filelist =>
      obtain ⟨_, ⟨_, rfl⟩ | ⟨names, _, _, rfl⟩⟩ := TimeSheetMgr.upload_cases hs
      · exact h
      · exact h.quiet hlist rfl rfl (fun _ hb => hb) fun _ hb => hb
  | send tid reply =>
      obtain ⟨name, filelist, f, hpc, hf, hcase⟩ := TimeSheetMgr.send_cases hs
      rcases hcase with ⟨_, rfl⟩ | ⟨_, rfl⟩ | ⟨_, _, rfl⟩ | ⟨a, rfl, ho, rfl⟩
      · exact h.quiet hlist rfl rfl (fun _ hb => hb) fun _ hb => hb
      · exact h.quiet hlist rfl rfl (fun _ hb => hb) fun _ hb => hb
      · exact h.quiet hlist rfl rfl (fun _ hb => hb) fun _ hb => hb
      · exact absurd (h.stored a ⟨name, f, hf, ho⟩).1 (hg name filelist f a hpc hf ho)
  | delete tid =>
      obtain ⟨name, filelist, _, rfl⟩ := TimeSheetMgr.delete_cases hs
      refine h.quiet hlist rfl rfl (fun b hb => ?_) fun _ hb => hb
      rcases inStore_setFile hb with hb | ⟨g, hg, _⟩
      · exact hb
      · cases hg
  | lock tid =>
      obtain ⟨_, _, rfl⟩ := TimeSheetMgr.lock_cases hs
      exact h.quiet hlist rfl rfl (fun _ hb => hb) fun _ hb => hb
  | request tid reply => exact oncePlaced_request h hg hs hlist
  | save tid =>
      obtain ⟨a, todo, vector_erase, ts, hpc, _, rfl⟩ := TimeSheetMgr.save_cases hs
      obtain ⟨_, _, hmem, hnew, _⟩ := h.list.held_of_saving hpc
      refine ⟨hlist, h.acks, h.nodup, fun b hb => ?_⟩
      rcases inStore_setFile hb with hb | ⟨g, hg, ho⟩
      · exact h.stored b hb
      · obtain ⟨f, _, rfl⟩ := Option.map_eq_some_iff.mp hg
        cases ho
        exact ⟨hmem, hnew⟩
  | erase tid =>
      obtain ⟨a, vector_erase, hpc, rfl⟩ := TimeSheetMgr.erase_cases hs
      have ha : a ∈ s.replied := (h.list.held_of_listing hpc).2.erased a List.mem_cons_self
      refine ⟨hlist, h.acks, h.nodup, fun b hb => ?_⟩
      obtain ⟨hbm, hbr⟩ := h.stored b hb
      have hne : b ≠ a := fun heq => hbr (heq ▸ ha)
      exact ⟨List.mem_filter.mpr ⟨hbm, by simpa using hne⟩, hbr⟩
  | unlock tid =>
      obtain ⟨_, rfl⟩ := TimeSheetMgr.unlock_cases hs
      exact h.quiet hlist rfl rfl (fun _ hb => hb) fun _ hb => hb

end Steps

/-! ## A second reply after a reply in both places -/

section Resend

variable {cfg : Config} {s t : TimeSheetMgr} {tid : Nat}

/-- The threads from some number on have not been used. -/
def Spare (s : TimeSheetMgr) : Prop := ∃ n, ∀ tid, n ≤ tid → s.pc tid = .idle

structure Followed (s : TimeSheetMgr) : Prop where
  list : ListInv s
  counted : ∀ a ∈ s.replied, a ∈ s.acks
  spare : Spare s

theorem followed_start (files : Bytes → Option Bytes) : Followed (TimeSheetMgr.start files) where
  list := listInv_start files
  counted _ h := nomatch h
  spare := ⟨0, fun _ _ => rfl⟩

theorem Spare.update (h : Spare s) (pc : Pc) (hpc : t.pc = Function.update s.pc tid pc) :
    Spare t := by
  rcases h with ⟨n, hn⟩
  refine ⟨max n (tid + 1), fun i hi => ?_⟩
  rw [hpc, Function.update_of_ne (by omega)]
  exact hn i (by omega)

/-- A step of one thread without a true reply. -/
theorem Followed.quiet (h : Followed s) (hlist : ListInv t) {pc : Pc}
    (hpc : t.pc = Function.update s.pc tid pc) (hacks : t.acks = s.acks)
    (hreplied : t.replied = s.replied) : Followed t :=
  ⟨hlist, by rw [hacks, hreplied]; exact h.counted, h.spare.update pc hpc⟩

theorem followed_step (s : TimeSheetMgr) (l : UploadLabel) (t : TimeSheetMgr) (h : Followed s)
    (hs : (uploads cfg).step s l = some t) : Followed t := by
  have hlist : ListInv t := listInv_step s l t h.list hs
  cases l with
  | insert tid tm lab_no utype img =>
      obtain ⟨_, rfl⟩ := TimeSheetMgr.insert_cases hs
      exact h.quiet hlist rfl rfl rfl
  | push tid =>
      obtain ⟨ts, _, _, rfl⟩ := TimeSheetMgr.push_cases hs
      exact h.quiet hlist rfl rfl rfl
  | upload tid filelist =>
      obtain ⟨_, ⟨_, rfl⟩ | ⟨names, _, _, rfl⟩⟩ := TimeSheetMgr.upload_cases hs
      · exact h
      · exact h.quiet hlist rfl rfl rfl
  | send tid reply =>
      obtain ⟨name, filelist, f, _, _, hcase⟩ := TimeSheetMgr.send_cases hs
      rcases hcase with ⟨_, rfl⟩ | ⟨_, rfl⟩ | ⟨_, _, rfl⟩ | ⟨a, _, _, rfl⟩
      · exact h.quiet hlist rfl rfl rfl
      · exact h.quiet hlist rfl rfl rfl
      · exact h.quiet hlist rfl rfl rfl
      · exact ⟨hlist, fun b hb => List.mem_append_left _ (h.counted b hb), h.spare.update _ rfl⟩
  | delete tid =>
      obtain ⟨name, filelist, _, rfl⟩ := TimeSheetMgr.delete_cases hs
      exact h.quiet hlist rfl rfl rfl
  | lock tid =>
      obtain ⟨_, _, rfl⟩ := TimeSheetMgr.lock_cases hs
      exact h.quiet hlist rfl rfl rfl
  | request tid reply =>
      obtain ⟨a, todo, vector_erase, ts, _, _, hcase⟩ := TimeSheetMgr.request_cases hs
      rcases hcase with ⟨_, rfl⟩ | ⟨_, rfl⟩ | ⟨_, rfl⟩
      · refine ⟨hlist, fun b hb => ?_, h.spare.update _ rfl⟩
        rcases List.mem_append.mp hb with hb | hb
        · exact List.mem_append_left _ (h.counted b hb)
        · exact List.mem_append_right _ hb
      · exact h.quiet hlist rfl rfl rfl
      · exact h.quiet hlist rfl rfl rfl
  | save tid =>
      obtain ⟨a, todo, vector_erase, ts, _, _, rfl⟩ := TimeSheetMgr.save_cases hs
      exact h.quiet hlist rfl rfl rfl
  | erase tid =>
      obtain ⟨a, vector_erase, _, rfl⟩ := TimeSheetMgr.erase_cases hs
      exact h.quiet hlist rfl rfl rfl
  | unlock tid =>
      obtain ⟨_, rfl⟩ := TimeSheetMgr.unlock_cases hs
      exact h.quiet hlist rfl rfl rfl

theorem followed_run {labels : List UploadLabel} (h : Followed s)
    (hr : (uploads cfg).run s labels = some t) : Followed t :=
  Machine.run_invariant (G := fun _ _ => True) (fun s l t h _ => followed_step s l t h) h
    (Machine.allSteps_of_forall (fun _ _ => trivial) s labels) hr

variable (cfg)

/-- Nothing but the place of the threads, the files and the objects that are gone changes. -/
structure SameReplies (s t : TimeSheetMgr) : Prop where
  acks : t.acks = s.acks
  replied : t.replied = s.replied
  length : t.heap.length = s.heap.length

theorem SameReplies.trans {r : TimeSheetMgr} (h₁ : SameReplies s t) (h₂ : SameReplies t r) :
    SameReplies s r :=
  ⟨h₂.acks.trans h₁.acks, h₂.replied.trans h₁.replied, h₂.length.trans h₁.length⟩

/-- The thread at the list can have the elements in front refused. -/
theorem refuse (front todo vector_erase : List Nat)
    (hpc : s.pc tid = .listing (front ++ todo) vector_erase)
    (hlive : ∀ a ∈ front, ∃ ts, s.heap.deref a = some ts) :
    ∃ labels, (uploads cfg).run s labels = some (s.at_ tid (.listing todo vector_erase)) := by
  induction front generalizing s with
  | nil =>
      refine ⟨[], ?_⟩
      rw [Machine.run_nil, TimeSheetMgr.at_, ← List.nil_append todo, ← hpc,
        Function.update_eq_self]
  | cons a front ih =>
      obtain ⟨ts, hts⟩ := hlive a List.mem_cons_self
      have hstep : (uploads cfg).step s (.request tid (some false)) =
          some (s.at_ tid (.listing (front ++ todo) vector_erase)) := by
        rw [List.cons_append] at hpc
        simp only [uploads, TimeSheetMgr.step, TimeSheetMgr.request, hpc, hts]
      obtain ⟨labels, hrun⟩ := ih (s.at_self tid (.listing (front ++ todo) vector_erase))
        fun b hb => hlive b (List.mem_cons_of_mem _ hb)
      refine ⟨.request tid (some false) :: labels, ?_⟩
      rw [Machine.run_cons, hstep, Option.bind_some, hrun]
      simp only [TimeSheetMgr.at_, Function.update_idem]

/-- It can remove what it collected, and leave. -/
theorem leave (vector_erase : List Nat) (hpc : s.pc tid = .listing [] vector_erase) :
    ∃ labels u, (uploads cfg).run s labels = some u ∧ u.mtx = none ∧ SameReplies s u := by
  induction vector_erase generalizing s with
  | nil =>
      refine ⟨[.unlock tid], { s.at_ tid .idle with mtx := none }, ?_, rfl, rfl, rfl, rfl⟩
      simp only [Machine.run_cons, uploads, TimeSheetMgr.step, hpc, Option.bind_some,
        Machine.run_nil]
  | cons a vector_erase ih =>
      obtain ⟨r, hr⟩ := Option.isSome_iff_exists.mp (show (s.erase tid).isSome by
        simp [TimeSheetMgr.erase, hpc])
      have hstep : (uploads cfg).step s (.erase tid) = some r := hr
      obtain ⟨b, rest, hpc', rfl⟩ := TimeSheetMgr.erase_cases hr
      cases hpc.symm.trans hpc'
      obtain ⟨labels, u, hrun, hm, hsame⟩ := ih (s := { s.at_ tid (.listing [] vector_erase) with
        heap := s.heap.free a, m_listTS := s.m_listTS.filter (· ≠ a) }) (Function.update_self ..)
      refine ⟨.erase tid :: labels, u, ?_, hm, hsame.acks, hsame.replied, ?_⟩
      · rw [Machine.run_cons, hstep, Option.bind_some]
        exact hrun
      · exact hsame.length.trans (Heap.length_free s.heap a)

theorem release_of_listing {todo vector_erase : List Nat}
    (hpc : s.pc tid = .listing todo vector_erase)
    (hlive : ∀ a ∈ todo, ∃ ts, s.heap.deref a = some ts) :
    ∃ labels u, (uploads cfg).run s labels = some u ∧ u.mtx = none ∧ SameReplies s u := by
  obtain ⟨l₁, h₁⟩ := refuse cfg todo [] vector_erase
    (hpc.trans (by rw [List.append_nil])) hlive
  obtain ⟨l₂, u, h₂, hu, hsame⟩ := leave cfg vector_erase
    (s.at_self tid (.listing [] vector_erase))
  refine ⟨l₁ ++ l₂, u, ?_, hu, hsame.acks, hsame.replied, hsame.length⟩
  rw [Machine.run_append, h₁, Option.bind_some, h₂]

/-- The mutex can become free without a further true reply. -/
theorem release (h : Followed s) :
    ∃ labels u, (uploads cfg).run s labels = some u ∧ u.mtx = none ∧ SameReplies s u := by
  cases hm : s.mtx with
  | none => exact ⟨[], s, rfl, hm, rfl, rfl, rfl⟩
  | some tid =>
      obtain ⟨todo, vector_erase, hin, hheld⟩ := h.list.locked tid hm
      have hlive : ∀ a ∈ todo, ∃ ts, s.heap.deref a = some ts :=
        fun a ha => h.list.live a (hheld.waiting a ha).1
      cases hin with
      | listing hpc => exact release_of_listing cfg hpc hlive
      | saving hpc hmem _ _ =>
          obtain ⟨ts, hts⟩ := h.list.live _ hmem
          obtain ⟨r, hr⟩ := Option.isSome_iff_exists.mp (show (s.save cfg tid).isSome by
            simp [TimeSheetMgr.save, hpc, hts])
          have hstep : (uploads cfg).step s (.save tid) = some r := hr
          obtain ⟨b, _, _, ts', hpc', _, heq⟩ := TimeSheetMgr.save_cases hr
          cases hpc.symm.trans hpc'
          have hr' : r.pc tid = .listing todo vector_erase := by
            rw [heq]
            exact Function.update_self ..
          have hsame : SameReplies s r := by
            rw [heq]
            exact ⟨rfl, rfl, rfl⟩
          obtain ⟨labels, u, hrun, hu, hsame'⟩ := release_of_listing cfg hr' (by
            rw [heq]
            exact hlive)
          refine ⟨.save tid :: labels, u, ?_, hu, hsame.trans hsame'⟩
          rw [Machine.run_cons, hstep, Option.bind_some, hrun]

theorem request_true {a : Nat} {todo vector_erase : List Nat} {ts : TimeSheet}
    (hpc : s.pc tid = .listing (a :: todo) vector_erase) (hts : s.heap.deref a = some ts) :
    ∃ t, (uploads cfg).step s (.request tid (some true)) = some t ∧ t.acks = s.acks ++ [a] := by
  refine ⟨{ s.at_ tid (.listing todo (vector_erase ++ [a])) with
    replied := s.replied ++ [a] }.confirm a, ?_, rfl⟩
  simp only [uploads, TimeSheetMgr.step, TimeSheetMgr.request, hpc, hts, TimeSheetMgr.at_replied]

theorem send_true {a : Nat} {name : Bytes} {filelist : List Bytes} {f : SavedFile}
    (hpc : s.pc tid = .sending (name :: filelist)) (hf : s.files name = some f)
    (ho : f.owner = some a) :
    ∃ t, (uploads cfg).step s (.send tid (some true)) = some t ∧ t.acks = s.acks ++ [a] := by
  refine ⟨(s.at_ tid (.deleting name filelist)).confirm a, ?_, rfl⟩
  simp only [uploads, TimeSheetMgr.step, TimeSheetMgr.send, hpc, hf, ho]

/-- With the mutex free, anything in the list can be answered true. -/
theorem accept (h : Followed s) (hm : s.mtx = none) {a : Nat} (ha : a ∈ s.m_listTS) :
    ∃ labels u, (uploads cfg).run s labels = some u ∧ u.acks = s.acks ++ [a] := by
  rcases h.spare with ⟨tid, hidle⟩
  have hidle := hidle tid (Nat.le_refl tid)
  obtain ⟨front, todo, hlist⟩ := List.append_of_mem ha
  let r := { s.at_ tid (.listing s.m_listTS []) with mtx := some tid }
  have hr : r.pc tid = .listing (front ++ a :: todo) [] := by
    rw [← hlist]
    exact s.at_self tid (.listing s.m_listTS [])
  have hlock : (uploads cfg).run s [.upload tid (some []), .lock tid] = some r := by
    have hnone : s.Lists [] := ⟨List.nodup_nil, fun _ hx => nomatch hx⟩
    simp [uploads, TimeSheetMgr.step, hidle, hnone, hm, r, TimeSheetMgr.at_]
  obtain ⟨labels, hrefuse⟩ := refuse cfg front (a :: todo) [] hr
    fun b hb => h.list.live b (hlist ▸ List.mem_append_left _ hb)
  obtain ⟨ts, hts⟩ := h.list.live a ha
  obtain ⟨u, hstep, hacks⟩ := request_true cfg
    (r.at_self tid (.listing (a :: todo) [])) hts
  refine ⟨[.upload tid (some []), .lock tid] ++ (labels ++ [.request tid (some true)]), u, ?_,
    hacks⟩
  rw [Machine.run_append, hlock, Option.bind_some, Machine.run_append, hrefuse, Option.bind_some,
    Machine.run_cons, hstep, Option.bind_some, Machine.run_nil]

/-- A file that is stored can be answered true. -/
theorem resend (h : Followed s) {a : Nat} (ha : s.InStore a) :
    ∃ labels u, (uploads cfg).run s labels = some u ∧ u.acks = s.acks ++ [a] := by
  rcases h.spare with ⟨tid, hidle⟩
  have hidle := hidle tid (Nat.le_refl tid)
  rcases ha with ⟨name, f, hf, ho⟩
  have hlists : s.Lists [name] := by
    refine ⟨List.nodup_singleton name, fun n hn => ?_⟩
    rw [List.mem_singleton.mp hn, hf]
    rfl
  have hupload : (uploads cfg).step s (.upload tid (some [name])) =
      some (s.at_ tid (.sending [name])) := by
    simp only [uploads, TimeSheetMgr.step, hidle, hlists, if_true]
  obtain ⟨u, hstep, hacks⟩ := send_true cfg (s.at_self tid (.sending [name])) hf ho
  refine ⟨[.upload tid (some [name]), .send tid (some true)], u, ?_, hacks⟩
  rw [Machine.run_cons, hupload, Option.bind_some, Machine.run_cons, hstep, Option.bind_some,
    Machine.run_nil]

theorem not_once_of_twice {a : Nat} (ha : a ∈ s.acks) (ht : t.acks = s.acks ++ [a]) :
    ¬ AcknowledgedOnce t := by
  intro h
  have hcount := h a
  rw [ht, List.count_append, List.count_singleton_self] at hcount
  have := List.count_pos_iff.mpr ha
  omega

/-- After a true reply to what is in both places, replies can follow that make it two. -/
theorem twice_of_not_onePlace (h : Followed s) {l : UploadLabel} (hg : ¬ OnePlace s l)
    (hs : (uploads cfg).step s l = some t) :
    ∃ more u, (uploads cfg).run t more = some u ∧ ¬ AcknowledgedOnce u := by
  have ht : Followed t := followed_step s l t h hs
  unfold OnePlace at hg
  split at hg
  next tid =>
    have hs : s.request tid (some true) = some t := hs
    obtain ⟨a, todo, vector_erase, ts, hpc, hts, ⟨_, rfl⟩ | ⟨hr, _⟩ | ⟨hr, _⟩⟩ :=
      TimeSheetMgr.request_cases hs
    · push Not at hg
      rcases hg with ⟨b, todo', erase', hpc', hb⟩
      cases hpc.symm.trans hpc'
      obtain ⟨more, u, hrun, hacks⟩ := resend cfg ht hb
      exact ⟨more, u, hrun, not_once_of_twice (List.mem_append_right _ List.mem_cons_self) hacks⟩
    · cases hr
    · cases hr
  next tid =>
    push Not at hg
    rcases hg with ⟨name, filelist, f, a, hpc, hf, ho, hmem⟩
    have hs : s.send tid (some true) = some t := hs
    obtain ⟨name', filelist', f', hpc', hf', hcase⟩ := TimeSheetMgr.send_cases hs
    cases hpc.symm.trans hpc'
    cases hf.symm.trans hf'
    rcases hcase with ⟨hr, _⟩ | ⟨hr, _⟩ | ⟨_, ho', _⟩ | ⟨b, _, ho', rfl⟩
    · cases hr
    · cases hr
    · cases ho.symm.trans ho'
    · cases ho.symm.trans ho'
      by_cases hrep : a ∈ s.replied
      · exact ⟨[], _, rfl, not_once_of_twice (h.counted a hrep) rfl⟩
      · -- the entry is still pending when the mutex is free again
        obtain ⟨l₁, r, h₁, hm, hsame⟩ := release cfg ht
        have hr : Followed r := followed_run ht h₁
        have ha : a ∈ r.m_listTS := by
          obtain ⟨ts, hts⟩ := h.list.live a hmem
          rw [hr.list.unlocked hm, pendingOf, hsame.length, hsame.replied]
          exact List.mem_filter.mpr ⟨List.mem_range.mpr (Heap.lt_length_of_deref hts),
            decide_eq_true hrep⟩
        obtain ⟨l₂, u, h₂, hacks⟩ := accept cfg hr hm ha
        refine ⟨l₁ ++ l₂, u, ?_, not_once_of_twice (a := a) ?_ hacks⟩
        · rw [Machine.run_append, h₁, Option.bind_some, h₂]
        · rw [hsame.acks]
          exact List.mem_append_right _ List.mem_cons_self
  · exact absurd trivial hg

end Resend

/-- In every run in which no time sheet is answered true while it is in both places, each is
acknowledged at most once; and any other true reply leads on to a second one. -/
theorem acknowledgedOnce_of_onePlace (cfg : Config) (files : Bytes → Option Bytes)
    (labels : List UploadLabel) :
    ((uploads cfg).AllSteps OnePlace (TimeSheetMgr.start files) labels →
      (uploads cfg).AllStates AcknowledgedOnce (TimeSheetMgr.start files) labels) ∧
    ∀ s l t, (uploads cfg).run (TimeSheetMgr.start files) labels = some s →
      (uploads cfg).step s l = some t → ¬ OnePlace s l →
      ∃ more u, (uploads cfg).run t more = some u ∧ ¬ AcknowledgedOnce u :=
  ⟨Machine.allStates_of_allSteps (fun _ h => h.once) oncePlaced_step (oncePlaced_start files),
    fun _ _ _ hr hs hg => twice_of_not_onePlace cfg (followed_run (followed_start files) hr) hg hs⟩

theorem acknowledgedOnce_of_onePlace_delivered :
    (uploads gateConfig).AllStates AcknowledgedOnce (TimeSheetMgr.start fun _ => none)
      [entry 0, .push 0, .upload 1 (some []), .lock 1, .request 1 (some true), .erase 1,
        .unlock 1] := by
  refine (acknowledgedOnce_of_onePlace gateConfig (fun _ => none) _).1 ?_
  refine .cons rfl trivial (.cons rfl trivial (.cons rfl trivial (.cons rfl trivial
    (.cons rfl ?_ (.cons rfl trivial (.cons rfl trivial trivial))))))
  rintro a todo vector_erase - ⟨name, f, hf, -⟩
  cases hf

/-- The file of a failed request is accepted, and then the entry that stayed in the list. -/
theorem stored_entry_acknowledged_twice :
    ¬ (uploads gateConfig).AllStates AcknowledgedOnce (TimeSheetMgr.start fun _ => none)
      [entry 0, .push 0, .upload 1 (some []), .lock 1, .request 1 none, .save 1, .unlock 1,
        .upload 1 (some [entryTime.text]), .send 1 (some true), .delete 1, .lock 1,
        .request 1 (some true)] := by
  intro h
  have htwice := h.last rfl 0
  revert htwice
  decide

end Acu.Attendance
