import Mathlib.Data.List.Nodup
import Acu.Attendance.Pending
import Acu.Web.Api

/-!
# What one upload attempts

The connection works, so every request is answered. The steps of one call of
`upload` then follow from the answers, and with them which files and which
elements of the list a request is made for.
-/

namespace Acu.Attendance

open Acu.Core Web

/-- What a request is made for. -/
inductive Attempt where
  | file (name : Bytes)
  | entry (a : Nat)
  deriving DecidableEq, Repr

/-- An answer with status 200 and its value, or one with another status. -/
inductive Answer where
  | ok (value : Bool)
  | refused
  deriving DecidableEq, Repr

/-- The status `run` leaves: `parsing()` is false for a header that is not a 200. -/
def Answer.status : Answer → Ret
  | .ok _ => .RET_SUCCESS
  | .refused => .RET_PARSING_FAIL

/-- What the request function makes of the answer; missing stands for the exception. -/
def Answer.reply (x : Answer) : Option Bool :=
  match THROW_EXCEPTION x.status, x with
  | none, .ok value => some value
  | _, _ => none

def UploadLabel.reply : UploadLabel → Option Bool
  | .send _ reply | .request _ reply => reply
  | _ => none

/-- The steps of a call of `upload` by thread `tid`, once the directory is listed. -/
def UploadLabel.InCall (tid : Nat) : UploadLabel → Prop
  | .send i _ | .delete i | .lock i | .request i _ | .save i | .erase i | .unlock i => i = tid
  | .insert .. | .push _ | .upload .. => False

/-- The attempt a step is the outcome of. -/
def TimeSheetMgr.tried (s : TimeSheetMgr) : UploadLabel → Option Attempt
  | .send tid _ =>
      match s.pc tid with
      | .sending (name :: _) => some (.file name)
      | _ => none
  | .request tid _ =>
      match s.pc tid with
      | .listing (a :: _) _ => some (.entry a)
      | _ => none
  | _ => none

/-- The attempts of a run, in their order. -/
def attempts (cfg : Config) (s : TimeSheetMgr) : List UploadLabel → List Attempt
  | [] => []
  | l :: ls =>
      (s.tried l).toList ++
        match (uploads cfg).step s l with
        | none => []
        | some t => attempts cfg t ls

/-- A request is answered as assigned. -/
def Follows (answer : Attempt → Answer) (s : TimeSheetMgr) (l : UploadLabel) : Prop :=
  ∀ x, s.tried l = some x → l.reply = (answer x).reply

/-- The rest of a call of `upload` by thread `tid`, up to its return. -/
structure IsCall (cfg : Config) (answer : Attempt → Answer) (tid : Nat) (s : TimeSheetMgr)
    (labels : List UploadLabel) (t : TimeSheetMgr) : Prop where
  run : (uploads cfg).run s labels = some t
  own : ∀ l ∈ labels, l.InCall tid
  answered : (uploads cfg).AllSteps (Follows answer) s labels
  returned : t.pc tid = .idle

/-- Every stored file and every element of the list was attempted exactly once. -/
def EachOnce (s : TimeSheetMgr) (tried : List Attempt) : Prop :=
  (∀ name, (s.files name).isSome → tried.count (.file name) = 1) ∧
    ∀ a ∈ s.m_listTS, tried.count (.entry a) = 1

/-! ## What is still to come -/

/-- The files the loop gets to: up to the first answer with an error status. -/
def filesTried (answer : Attempt → Answer) : List Bytes → List Attempt
  | [] => []
  | name :: filelist =>
      .file name ::
        match answer (.file name) with
        | .ok _ => filesTried answer filelist
        | .refused => []

/-- No file is answered with an error status. -/
def NoneRefused (answer : Attempt → Answer) (filelist : List Bytes) : Prop :=
  ∀ name ∈ filelist, answer (.file name) ≠ .refused

instance (answer : Attempt → Answer) (filelist : List Bytes) :
    Decidable (NoneRefused answer filelist) :=
  inferInstanceAs (Decidable (∀ name ∈ filelist, _))

/-- What a call attempts after it has passed the files of `filelist`. -/
def fromFiles (answer : Attempt → Answer) (m_listTS : List Nat) (filelist : List Bytes) :
    List Attempt :=
  filesTried answer filelist ++
    if NoneRefused answer filelist then m_listTS.map .entry else []

/-- What a call attempts from a place on. -/
def Pc.outstanding (answer : Attempt → Answer) (m_listTS : List Nat) : Pc → List Attempt
  | .sending filelist | .deleting _ filelist => fromFiles answer m_listTS filelist
  | .listing todo _ | .saving _ todo _ => todo.map .entry
  | .idle | .inserting _ => []

section Steps

variable {cfg : Config} {answer : Attempt → Answer} {s t : TimeSheetMgr} {tid : Nat}

theorem noneRefused_cons {name : Bytes} {filelist : List Bytes} :
    NoneRefused answer (name :: filelist) ↔
      answer (.file name) ≠ .refused ∧ NoneRefused answer filelist :=
  List.forall_mem_cons

theorem fromFiles_ok {name : Bytes} {value : Bool} (h : answer (.file name) = .ok value)
    (lst : List Nat) (filelist : List Bytes) :
    fromFiles answer lst (name :: filelist) = .file name :: fromFiles answer lst filelist := by
  by_cases hn : NoneRefused answer filelist <;>
    simp [fromFiles, filesTried, noneRefused_cons, h, hn]

theorem fromFiles_refused {name : Bytes} (h : answer (.file name) = .refused)
    (lst : List Nat) (filelist : List Bytes) :
    fromFiles answer lst (name :: filelist) = [.file name] := by
  simp [fromFiles, filesTried, noneRefused_cons, h]

theorem Answer.reply_eq_none {x : Answer} : x.reply = none ↔ x = .refused := by
  cases x <;> simp [Answer.reply, Answer.status, THROW_EXCEPTION]

theorem Answer.reply_eq_some {x : Answer} {value : Bool} :
    x.reply = some value ↔ x = .ok value := by
  cases x <;> simp [Answer.reply, Answer.status, THROW_EXCEPTION]

/-- A step of the call attempts what comes next and leaves the rest. -/
theorem outstanding_step {l : UploadLabel} (hs : (uploads cfg).step s l = some t)
    (hown : l.InCall tid) (hans : Follows answer s l) :
    (s.pc tid).outstanding answer s.m_listTS =
      (s.tried l).toList ++ (t.pc tid).outstanding answer t.m_listTS := by
  cases l with
  | insert => exact hown.elim
  | push => exact hown.elim
  | upload => exact hown.elim
  | send i reply =>
      obtain rfl : i = tid := hown
      obtain ⟨name, filelist, f, hpc, hf, hcase⟩ := TimeSheetMgr.send_cases hs
      have htried : s.tried (.send i reply) = some (.file name) := by
        simp [TimeSheetMgr.tried, hpc]
      have hreply : reply = (answer (.file name)).reply := hans _ htried
      rw [hpc, htried, Option.toList_some, Pc.outstanding]
      rcases hcase with ⟨hr, rfl⟩ | ⟨hr, rfl⟩ | ⟨hr, -, rfl⟩ | ⟨a, hr, -, rfl⟩
      · have hno := Answer.reply_eq_none.mp (hreply.symm.trans hr)
        rw [fromFiles_refused hno, TimeSheetMgr.at_self]
        rfl
      · have hok := Answer.reply_eq_some.mp (hreply.symm.trans hr)
        rw [fromFiles_ok hok, TimeSheetMgr.at_self]
        rfl
      · have hok := Answer.reply_eq_some.mp (hreply.symm.trans hr)
        rw [fromFiles_ok hok, TimeSheetMgr.at_self]
        rfl
      · have hok := Answer.reply_eq_some.mp (hreply.symm.trans hr)
        have hpc' : ((s.at_ i (.deleting name filelist)).confirm a).pc i =
            .deleting name filelist := s.at_self i _
        rw [fromFiles_ok hok, hpc']
        rfl
  | delete i =>
      obtain rfl : i = tid := hown
      obtain ⟨name, filelist, hpc, rfl⟩ := TimeSheetMgr.delete_cases hs
      rw [hpc, TimeSheetMgr.setFile_pc, TimeSheetMgr.at_self]
      rfl
  | lock i =>
      obtain rfl : i = tid := hown
      obtain ⟨hpc, -, rfl⟩ := TimeSheetMgr.lock_cases hs
      have hpc' : ({ s.at_ i (.listing s.m_listTS []) with mtx := some i }).pc i =
          .listing s.m_listTS [] := s.at_self i _
      rw [hpc, hpc']
      simp [Pc.outstanding, fromFiles, filesTried, NoneRefused, TimeSheetMgr.tried]
  | request i reply =>
      obtain rfl : i = tid := hown
      obtain ⟨a, todo, vector_erase, ts, hpc, -, hcase⟩ := TimeSheetMgr.request_cases hs
      have htried : s.tried (.request i reply) = some (.entry a) := by
        simp [TimeSheetMgr.tried, hpc]
      rw [hpc, htried, Option.toList_some, Pc.outstanding, List.map_cons]
      rcases hcase with ⟨-, rfl⟩ | ⟨-, rfl⟩ | ⟨-, rfl⟩
      · have hpc' : ({ s.at_ i (.listing todo (vector_erase ++ [a])) with
            replied := s.replied ++ [a] }.confirm a).pc i =
            .listing todo (vector_erase ++ [a]) := s.at_self i _
        rw [hpc']
        rfl
      · rw [TimeSheetMgr.at_self]
        rfl
      · rw [TimeSheetMgr.setFile_pc, TimeSheetMgr.at_self]
        rfl
  | save i =>
      obtain rfl : i = tid := hown
      obtain ⟨a, todo, vector_erase, ts, hpc, -, rfl⟩ := TimeSheetMgr.save_cases hs
      have hpc' : ({ (s.at_ i (.listing todo vector_erase)).setFile ts.m_time
          ((s.files ts.m_time).map fun f : SavedFile =>
            ⟨some a, f.text ++ cfg.requestText ts⟩) with
        unconfirmed := s.unconfirmed ++ [a] }).pc i = .listing todo vector_erase := s.at_self i _
      rw [hpc, hpc']
      rfl
  | erase i =>
      obtain rfl : i = tid := hown
      obtain ⟨a, vector_erase, hpc, rfl⟩ := TimeSheetMgr.erase_cases hs
      have hpc' : ({ s.at_ i (.listing [] vector_erase) with
          heap := s.heap.free a
          m_listTS := s.m_listTS.filter (· ≠ a) }).pc i = .listing [] vector_erase :=
        s.at_self i _
      rw [hpc, hpc']
      rfl
  | unlock i =>
      obtain rfl : i = tid := hown
      obtain ⟨hpc, rfl⟩ := TimeSheetMgr.unlock_cases hs
      have hpc' : ({ s.at_ i .idle with mtx := none }).pc i = .idle := s.at_self i _
      rw [hpc, hpc']
      rfl

/-- A call that has returned attempted all that was still to come. -/
theorem IsCall.attempts_eq {labels : List UploadLabel} (h : IsCall cfg answer tid s labels t) :
    attempts cfg s labels = (s.pc tid).outstanding answer s.m_listTS := by
  induction labels generalizing s with
  | nil =>
      have hst : s = t := Option.some.inj h.run
      rw [hst, h.returned]
      rfl
  | cons l labels ih =>
      obtain ⟨r, hs, hr⟩ := Machine.run_cons_eq_some _ h.run
      obtain ⟨hans, hrest⟩ := h.answered r hs
      have hown := h.own l List.mem_cons_self
      have hcall : IsCall cfg answer tid r labels t :=
        ⟨hr, fun l' hl => h.own l' (List.mem_cons_of_mem _ hl), hrest, h.returned⟩
      rw [outstanding_step hs hown hans, attempts, hs]
      exact congrArg _ (ih hcall)

end Steps

/-! ## Each exactly once -/

/-- No stored file is answered with an error status, save the last one of the listing when
the list is empty. -/
def KeepsOn (answer : Attempt → Answer) (filelist : List Bytes) (m_listTS : List Nat) : Prop :=
  ∀ name ∈ filelist, answer (.file name) = .refused →
    filelist.getLast? = some name ∧ m_listTS = []

section Once

variable {answer : Attempt → Answer} {filelist : List Bytes} {lst : List Nat}

theorem fromFiles_of_noneRefused (h : NoneRefused answer filelist) :
    fromFiles answer lst filelist = filelist.map .file ++ lst.map .entry := by
  induction filelist with
  | nil => simp [fromFiles, filesTried, NoneRefused]
  | cons name filelist ih =>
      obtain ⟨hname, hrest⟩ := noneRefused_cons.mp h
      cases hans : answer (.file name) with
      | refused => exact absurd hans hname
      | ok value =>
          rw [fromFiles_ok hans, ih hrest]
          rfl

theorem fromFiles_of_refused {front rest : List Bytes} {name : Bytes}
    (h : NoneRefused answer front) (hname : answer (.file name) = .refused) :
    fromFiles answer lst (front ++ name :: rest) = (front ++ [name]).map .file := by
  induction front with
  | nil => exact fromFiles_refused hname lst rest
  | cons first front ih =>
      obtain ⟨hfirst, hfront⟩ := noneRefused_cons.mp h
      cases hans : answer (.file first) with
      | refused => exact absurd hans hfirst
      | ok value =>
          rw [List.cons_append, fromFiles_ok hans, ih hfront]
          rfl

theorem first_refused (h : ¬ NoneRefused answer filelist) :
    ∃ front name rest, filelist = front ++ name :: rest ∧ NoneRefused answer front ∧
      answer (.file name) = .refused := by
  induction filelist with
  | nil => exact absurd (fun _ hm => nomatch hm) h
  | cons first filelist ih =>
      by_cases hfirst : answer (.file first) = .refused
      · exact ⟨[], first, filelist, rfl, fun _ hm => (nomatch hm), hfirst⟩
      · have hrest : ¬ NoneRefused answer filelist :=
          fun hn => h (noneRefused_cons.mpr ⟨hfirst, hn⟩)
        obtain ⟨front, name, rest, heq, hfront, hname⟩ := ih hrest
        exact ⟨first :: front, name, rest, congrArg _ heq,
          noneRefused_cons.mpr ⟨hfirst, hfront⟩, hname⟩

theorem attempts_nodup (hfiles : filelist.Nodup) (hlist : lst.Nodup) :
    (filelist.map Attempt.file ++ lst.map Attempt.entry).Nodup := by
  have hf : (filelist.map Attempt.file).Nodup := hfiles.map fun _ _ => Attempt.file.inj
  have he : (lst.map Attempt.entry).Nodup := hlist.map fun _ _ => Attempt.entry.inj
  refine List.nodup_append.mpr ⟨hf, he, ?_⟩
  intro x hx y hy heq
  obtain ⟨name, -, rfl⟩ := List.mem_map.mp hx
  obtain ⟨a, -, rfl⟩ := List.mem_map.mp hy
  cases heq

/-- What a call attempts is each file and each element once, precisely when it keeps on. -/
theorem eachOnce_iff {s : TimeSheetMgr} (hnodup : filelist.Nodup)
    (hfiles : ∀ name, (s.files name).isSome ↔ name ∈ filelist) (hlist : s.m_listTS.Nodup) :
    EachOnce s (fromFiles answer s.m_listTS filelist) ↔ KeepsOn answer filelist s.m_listTS := by
  by_cases hn : NoneRefused answer filelist
  · have hkeeps : KeepsOn answer filelist s.m_listTS :=
      fun name hm hr => absurd hr (hn name hm)
    have hall := attempts_nodup hnodup hlist
    refine iff_of_true ?_ hkeeps
    rw [fromFiles_of_noneRefused hn]
    constructor
    · intro name hname
      exact List.count_eq_one_of_mem hall (by simp [(hfiles name).mp hname])
    · intro a ha
      exact List.count_eq_one_of_mem hall (by simp [ha])
  · obtain ⟨front, name, rest, rfl, hfront, hname⟩ := first_refused hn
    have hmem : name ∈ front ++ name :: rest := by simp
    rw [fromFiles_of_refused hfront hname]
    constructor
    · intro h
      have hrest : rest = [] := by
        apply List.eq_nil_iff_forall_not_mem.mpr
        intro other hother
        have hone := h.1 other ((hfiles other).mpr (by simp [hother]))
        have htried : Attempt.file other ∈ (front ++ [name]).map Attempt.file :=
          List.count_pos_iff.mp (by omega)
        have hin : other ∈ front ++ [name] := by simpa using htried
        rw [List.append_cons] at hnodup
        exact (List.disjoint_of_nodup_append hnodup) hin hother
      have hempty : s.m_listTS = [] := by
        apply List.eq_nil_iff_forall_not_mem.mpr
        intro a ha
        have hone := h.2 a ha
        have hzero : ((front ++ [name]).map Attempt.file).count (.entry a) = 0 :=
          List.count_eq_zero.mpr (by simp)
        omega
      intro other hother hr
      subst hrest
      refine ⟨?_, hempty⟩
      rcases List.mem_append.mp hother with hin | hin
      · exact absurd hr (hfront other hin)
      · simp [List.mem_singleton.mp hin]
    · intro h
      obtain ⟨hlast, hempty⟩ := h name hmem hname
      have hrest : rest = [] := by
        cases hr : rest.getLast? with
        | none => exact List.getLast?_eq_none_iff.mp hr
        | some last =>
            have heq : last = name := by simpa [List.getLast?_cons, hr] using hlast
            have hin : name ∈ rest := heq ▸ List.mem_of_getLast? hr
            rw [List.append_cons] at hnodup
            exact absurd hin ((List.disjoint_of_nodup_append hnodup) (by simp))
      subst hrest
      constructor
      · intro other hother
        have hin := (hfiles other).mp hother
        exact List.count_eq_one_of_mem (hnodup.map fun _ _ => Attempt.file.inj)
          (List.mem_map_of_mem hin)
      · intro a ha
        rw [hempty] at ha
        cases ha

end Once

/-! ## The call returns -/

section Returns

variable {cfg : Config} {answer : Attempt → Answer} {s t r : TimeSheetMgr} {tid : Nat}

theorem follows_of_untried {l : UploadLabel} (h : s.tried l = none) : Follows answer s l := by
  intro x hx
  rw [h] at hx
  cases hx

theorem IsCall.done (h : t.pc tid = .idle) : IsCall cfg answer tid t [] t where
  run := rfl
  own := by simp
  answered := trivial
  returned := h

theorem IsCall.cons {l : UploadLabel} {labels : List UploadLabel}
    (hs : (uploads cfg).step s l = some r) (hown : l.InCall tid) (hans : Follows answer s l)
    (h : IsCall cfg answer tid r labels t) : IsCall cfg answer tid s (l :: labels) t where
  run := by rw [Machine.run_cons, hs, Option.bind_some, h.run]
  own := List.forall_mem_cons.mpr ⟨hown, h.own⟩
  answered := .cons hs hans h.answered
  returned := h.returned

/-- What was answered true is removed, and the mutex is left. -/
theorem call_erase (vector_erase : List Nat) (hpc : s.pc tid = .listing [] vector_erase) :
    ∃ labels t, IsCall cfg answer tid s labels t := by
  induction vector_erase generalizing s with
  | nil =>
      have hs : (uploads cfg).step s (.unlock tid) = some { s.at_ tid .idle with mtx := none } := by
        simp [uploads, TimeSheetMgr.step, hpc]
      have hidle : { s.at_ tid .idle with mtx := none }.pc tid = .idle := s.at_self tid .idle
      exact ⟨_, _, (IsCall.done hidle).cons hs rfl (follows_of_untried rfl)⟩
  | cons a vector_erase ih =>
      have hs : (uploads cfg).step s (.erase tid) = some { s.at_ tid (.listing [] vector_erase) with
          heap := s.heap.free a, m_listTS := s.m_listTS.filter (· ≠ a) } := by
        simp [uploads, TimeSheetMgr.step, TimeSheetMgr.erase, hpc, TimeSheetMgr.at_]
      obtain ⟨labels, t, hrest⟩ := ih (s := { s.at_ tid (.listing [] vector_erase) with
        heap := s.heap.free a, m_listTS := s.m_listTS.filter (· ≠ a) }) (s.at_self tid _)
      exact ⟨_, _, hrest.cons hs rfl (follows_of_untried rfl)⟩

/-- The list phase ends, whatever the elements are answered. -/
theorem call_list (todo vector_erase : List Nat) (hpc : s.pc tid = .listing todo vector_erase)
    (hlive : ∀ a ∈ todo, ∃ ts, s.heap.deref a = some ts) :
    ∃ labels t, IsCall cfg answer tid s labels t := by
  induction todo generalizing s vector_erase with
  | nil => exact call_erase vector_erase hpc
  | cons a todo ih =>
      obtain ⟨⟨ts, hts⟩, hrest⟩ := List.forall_mem_cons.mp hlive
      have htried : s.tried (.request tid (answer (.entry a)).reply) = some (.entry a) := by
        simp [TimeSheetMgr.tried, hpc]
      have hfollows : Follows answer s (.request tid (answer (.entry a)).reply) := by
        intro x hx
        cases htried.symm.trans hx
        rfl
      cases hans : (answer (.entry a)).reply with
      | none =>
          rw [hans] at hfollows
          let r := (s.at_ tid (.saving a todo vector_erase)).setFile ts.m_time (some ⟨some a, []⟩)
          have hs : (uploads cfg).step s (.request tid none) = some r := by
            simp [uploads, TimeSheetMgr.step, TimeSheetMgr.request, hpc, hts, r]
          have hr : r.pc tid = .saving a todo vector_erase := s.at_self tid _
          have hts' : r.heap.deref a = some ts := hts
          obtain ⟨u, hu⟩ := Option.isSome_iff_exists.mp (show (r.save cfg tid).isSome by
            simp [TimeSheetMgr.save, hr, hts'])
          obtain ⟨b, todo', erase', ts', hpc', -, heq⟩ := TimeSheetMgr.save_cases hu
          cases hr.symm.trans hpc'
          obtain ⟨labels, t, hcall⟩ := ih (s := u) vector_erase
            (by rw [heq]; exact Function.update_self ..) (by rw [heq]; exact hrest)
          have hsaved := hcall.cons (s := r) (l := .save tid) hu rfl (follows_of_untried rfl)
          exact ⟨_, _, hsaved.cons hs rfl hfollows⟩
      | some value =>
          rw [hans] at hfollows
          cases value with
          | false =>
              have hs : (uploads cfg).step s (.request tid (some false)) =
                  some (s.at_ tid (.listing todo vector_erase)) := by
                simp [uploads, TimeSheetMgr.step, TimeSheetMgr.request, hpc, hts]
              obtain ⟨labels, t, hcall⟩ := ih (s := s.at_ tid (.listing todo vector_erase))
                vector_erase (s.at_self tid _) hrest
              exact ⟨_, _, hcall.cons hs rfl hfollows⟩
          | true =>
              let r := { s.at_ tid (.listing todo (vector_erase ++ [a])) with
                replied := s.replied ++ [a] }.confirm a
              have hs : (uploads cfg).step s (.request tid (some true)) = some r := by
                simp [uploads, TimeSheetMgr.step, TimeSheetMgr.request, hpc, hts, r,
                  TimeSheetMgr.at_]
              obtain ⟨labels, t, hcall⟩ := ih (s := r) (vector_erase ++ [a]) (s.at_self tid _) hrest
              exact ⟨_, _, hcall.cons hs rfl hfollows⟩

/-- After a true reply the file is still to be deleted, and nothing else is touched. -/
theorem send_true_keeps {name : Bytes} {filelist : List Bytes}
    (hpc : s.pc tid = .sending (name :: filelist)) (hs : s.send tid (some true) = some r) :
    r.pc tid = .deleting name filelist ∧ r.mtx = s.mtx ∧ r.m_listTS = s.m_listTS ∧
      r.heap = s.heap ∧ r.files = s.files := by
  obtain ⟨name', filelist', f, hpc', -, hcase⟩ := TimeSheetMgr.send_cases hs
  cases hpc.symm.trans hpc'
  rcases hcase with ⟨hr, -⟩ | ⟨hr, -⟩ | ⟨-, -, rfl⟩ | ⟨a, -, -, rfl⟩
  · cases hr
  · cases hr
  · exact ⟨s.at_self tid _, rfl, rfl, rfl, rfl⟩
  · exact ⟨s.at_self tid _, rfl, rfl, rfl, rfl⟩

/-- Every file that is listed is there, and so is every object of the list. -/
theorem call_files (filelist : List Bytes) (hpc : s.pc tid = .sending filelist)
    (hmtx : s.mtx = none) (hnodup : filelist.Nodup)
    (hfiles : ∀ name ∈ filelist, (s.files name).isSome)
    (hlive : ∀ a ∈ s.m_listTS, ∃ ts, s.heap.deref a = some ts) :
    ∃ labels t, IsCall cfg answer tid s labels t := by
  induction filelist generalizing s with
  | nil =>
      let r := { s.at_ tid (.listing s.m_listTS []) with mtx := some tid }
      have hs : (uploads cfg).step s (.lock tid) = some r := by
        simp [uploads, TimeSheetMgr.step, hpc, hmtx, r]
      obtain ⟨labels, t, hcall⟩ := call_list (s := r) s.m_listTS [] (s.at_self tid _) hlive
      exact ⟨_, _, hcall.cons hs rfl (follows_of_untried rfl)⟩
  | cons name filelist ih =>
      obtain ⟨hname, hrest⟩ := List.forall_mem_cons.mp hfiles
      obtain ⟨f, hf⟩ := Option.isSome_iff_exists.mp hname
      obtain ⟨hnew, hnodup⟩ := List.nodup_cons.mp hnodup
      have htried : s.tried (.send tid (answer (.file name)).reply) = some (.file name) := by
        simp [TimeSheetMgr.tried, hpc]
      have hfollows : Follows answer s (.send tid (answer (.file name)).reply) := by
        intro x hx
        cases htried.symm.trans hx
        rfl
      cases hans : (answer (.file name)).reply with
      | none =>
          rw [hans] at hfollows
          have hs : (uploads cfg).step s (.send tid none) = some (s.at_ tid .idle) := by
            simp [uploads, TimeSheetMgr.step, TimeSheetMgr.send, hpc, hf]
          exact ⟨_, _, (IsCall.done (s.at_self tid .idle)).cons hs rfl hfollows⟩
      | some value =>
          rw [hans] at hfollows
          cases value with
          | false =>
              have hs : (uploads cfg).step s (.send tid (some false)) =
                  some (s.at_ tid (.sending filelist)) := by
                simp [uploads, TimeSheetMgr.step, TimeSheetMgr.send, hpc, hf]
              obtain ⟨labels, t, hcall⟩ := ih (s := s.at_ tid (.sending filelist))
                (s.at_self tid _) hmtx hnodup hrest hlive
              exact ⟨_, _, hcall.cons hs rfl hfollows⟩
          | true =>
              obtain ⟨r, hr⟩ := Option.isSome_iff_exists.mp (show (s.send tid (some true)).isSome by
                cases ho : f.owner <;> simp [TimeSheetMgr.send, hpc, hf, ho])
              have hs : (uploads cfg).step s (.send tid (some true)) = some r := hr
              obtain ⟨hrpc, hrmtx, hrlist, hrheap, hrfiles⟩ := send_true_keeps hpc hr
              let u := (r.at_ tid (.sending filelist)).setFile name none
              have hd : (uploads cfg).step r (.delete tid) = some u := by
                simp [uploads, TimeSheetMgr.step, hrpc, u]
              have hufiles : ∀ other ∈ filelist, (u.files other).isSome := by
                intro other hother
                have hne : other ≠ name := fun he => hnew (he ▸ hother)
                change (Function.update r.files name none other).isSome
                rw [Function.update_of_ne hne, hrfiles]
                exact hrest other hother
              have hulive : ∀ a ∈ u.m_listTS, ∃ ts, u.heap.deref a = some ts := by
                change ∀ a ∈ r.m_listTS, ∃ ts, r.heap.deref a = some ts
                rw [hrlist, hrheap]
                exact hlive
              obtain ⟨labels, t, hcall⟩ := ih (s := u) (r.at_self tid _) (hrmtx.trans hmtx)
                hnodup hufiles hulive
              have hdeleted := hcall.cons hd rfl (follows_of_untried rfl)
              exact ⟨_, _, hdeleted.cons hs rfl hfollows⟩

end Returns

/-! ## Any call of `upload` -/

theorem ListInv.nodup {s : TimeSheetMgr} (h : ListInv s) : s.m_listTS.Nodup := by
  cases hm : s.mtx with
  | none =>
      rw [h.unlocked hm]
      exact List.nodup_range.filter _
  | some tid =>
      obtain ⟨todo, vector_erase, -, hheld⟩ := h.locked tid hm
      rw [hheld.list]
      exact List.nodup_range.filter _

/-- A call by a thread that finds the mutex free returns, and it has attempted every stored
file and every element of the list exactly once precisely when it keeps on. -/
theorem upload_attempts_iff (cfg : Config) (stored : Bytes → Option Bytes)
    (history : List UploadLabel) (s : TimeSheetMgr)
    (hs : (uploads cfg).run (TimeSheetMgr.start stored) history = some s) (tid : Nat)
    (hidle : s.pc tid = .idle) (hmtx : s.mtx = none) (filelist : List Bytes)
    (hlists : s.Lists filelist) (hall : ∀ name, (s.files name).isSome → name ∈ filelist)
    (answer : Attempt → Answer) :
    ∃ r, (uploads cfg).step s (.upload tid (some filelist)) = some r ∧
      (∃ labels t, IsCall cfg answer tid r labels t) ∧
      ∀ labels t, IsCall cfg answer tid r labels t →
        (EachOnce s (attempts cfg r labels) ↔ KeepsOn answer filelist s.m_listTS) := by
  have hinv : ListInv s := Machine.run_invariant (G := fun _ _ => True)
    (fun s l t h _ hs => listInv_step s l t h hs) (listInv_start stored)
    (Machine.allSteps_of_forall (fun _ _ => trivial) _ history) hs
  refine ⟨s.at_ tid (.sending filelist), ?_, ?_, ?_⟩
  · simp [uploads, TimeSheetMgr.step, hidle, hlists]
  · exact call_files filelist (s.at_self tid _) hmtx hlists.1 hlists.2 hinv.live
  · intro labels t hcall
    rw [hcall.attempts_eq, TimeSheetMgr.at_self]
    exact eachOnce_iff hlists.1 (fun name => ⟨hall name, hlists.2 name⟩) hinv.nodup

/-! Two files in the store. -/

def storedNames : List Bytes := [ascii "2014-10-18 09:00:00", ascii "2014-10-18 09:00:05"]

def twoStored : TimeSheetMgr :=
  TimeSheetMgr.start fun name => if name ∈ storedNames then some [80] else none

theorem twoStored_attempted :
    ∃ labels t, IsCall gateConfig (fun _ => .ok true) 0
        (twoStored.at_ 0 (.sending storedNames)) labels t ∧
      EachOnce twoStored
        (attempts gateConfig (twoStored.at_ 0 (.sending storedNames)) labels) := by
  have hstored (name : Bytes) : (twoStored.files name).isSome ↔ name ∈ storedNames := by
    by_cases h : name ∈ storedNames <;> simp [twoStored, TimeSheetMgr.start, h]
  obtain ⟨r, hr, ⟨labels, t, hcall⟩, hiff⟩ := upload_attempts_iff gateConfig
    (fun name => if name ∈ storedNames then some [80] else none) [] twoStored rfl 0 rfl rfl
    storedNames ⟨by decide, fun name h => (hstored name).mpr h⟩ (fun name => (hstored name).mp)
    fun _ => .ok true
  obtain ⟨-, ⟨hnone, -⟩ | ⟨names, hnames, -, hr'⟩⟩ := TimeSheetMgr.upload_cases hr
  · cases hnone
  · cases hnames
    rw [hr'] at hcall hiff
    exact ⟨labels, t, hcall, (hiff labels t hcall).mpr fun name _ h => (nomatch h)⟩

/-- The first file is answered with an error status and the second one would be accepted. -/
theorem refused_file_ends_upload :
    IsCall gateConfig
        (fun x => if x = .file (ascii "2014-10-18 09:00:00") then .refused else .ok true) 0
        (twoStored.at_ 0 (.sending storedNames)) [.send 0 none]
        ((twoStored.at_ 0 (.sending storedNames)).at_ 0 .idle) ∧
      attempts gateConfig (twoStored.at_ 0 (.sending storedNames)) [.send 0 none] =
        [.file (ascii "2014-10-18 09:00:00")] ∧
      ¬ EachOnce twoStored
        (attempts gateConfig (twoStored.at_ 0 (.sending storedNames)) [.send 0 none]) := by
  have hattempts : attempts gateConfig (twoStored.at_ 0 (.sending storedNames)) [.send 0 none] =
      [.file (ascii "2014-10-18 09:00:00")] := rfl
  refine ⟨⟨rfl, by simp [UploadLabel.InCall], ?_, rfl⟩, hattempts, ?_⟩
  · refine .cons rfl ?_ trivial
    intro x hx
    cases hx
    rfl
  · intro h
    rw [hattempts] at h
    have hone := h.1 (ascii "2014-10-18 09:00:05") (by decide)
    revert hone
    decide

end Acu.Attendance
