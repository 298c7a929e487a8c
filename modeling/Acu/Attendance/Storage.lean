import Acu.Attendance.Upload

/-!
# Unconfirmed time sheets in the store

A file is named after the second of its entry, and opened for overwriting. The
machine of the uploads is extended by restarts of the process, which leave only
the files. Which steps keep every unconfirmed time sheet in a file of its own is
told exactly.
-/

namespace Acu.Attendance

open Acu.Core Acu.Core.CMemory

/-- A step of the threads, or the end of the process and a new start. -/
inductive StoreLabel where
  | act (l : UploadLabel)
  | restart

/-- The time sheet whose file is open. -/
def Pc.saves : Pc → Option Nat
  | .saving a _ _ => some a
  | _ => none

namespace TimeSheetMgr

/-- The list is lost, and the objects are left as history only. -/
def restart (s : TimeSheetMgr) : TimeSheetMgr :=
  { s with m_listTS := [], mtx := none, pc := fun _ => .idle }

/-- The time sheet `ts` had a failed request and no true reply since. -/
def Unconfirmed (s : TimeSheetMgr) (a : Nat) (ts : TimeSheet) : Prop :=
  a ∈ s.unconfirmed ∧ s.heap.content a = some ts

/-- The file of this name is open, to be written by the running process. -/
def BeingSaved (s : TimeSheetMgr) (name : Bytes) : Prop :=
  ∃ tid a ts, (s.pc tid).saves = some a ∧ s.heap.content a = some ts ∧ ts.m_time = name

def Stores (s : TimeSheetMgr) (name text : Bytes) : Prop :=
  ∃ f, s.files name = some f ∧ f.text = text

end TimeSheetMgr

def restarts (cfg : Config) : Machine TimeSheetMgr StoreLabel where
  step s
    | .act l => s.step cfg l
    | .restart => some s.restart

/-- Every unconfirmed time sheet is in a file of its own with its own request, which is
still being written only while the process runs. -/
structure StoredApart (cfg : Config) (s : TimeSheetMgr) : Prop where
  stored : ∀ a ts, s.Unconfirmed a ts →
    s.BeingSaved ts.m_time ∨ s.Stores ts.m_time (cfg.requestText ts)
  apart : ∀ a b ta tb, s.Unconfirmed a ta → s.Unconfirmed b tb → ta.m_time = tb.m_time → a = b

/-- A text is written to a file that was not deleted meanwhile, and that no other unconfirmed
time sheet goes by. No file is deleted that one goes by, unless it is just being written. The
process does not end while such a file is open. -/
def KeepsStored (s : TimeSheetMgr) : StoreLabel → Prop
  | .act (.save tid) => ∀ a ts, (s.pc tid).saves = some a → s.heap.content a = some ts →
      (s.files ts.m_time).isSome ∧
        ∀ b tb, s.Unconfirmed b tb → tb.m_time = ts.m_time → b = a
  | .act (.delete tid) => ∀ name filelist, s.pc tid = .deleting name filelist →
      ∀ b tb, s.Unconfirmed b tb → tb.m_time = name → s.BeingSaved name
  | .restart => ∀ b tb, s.Unconfirmed b tb → ¬ s.BeingSaved tb.m_time
  | _ => True

theorem Config.requestText_ne_nil (cfg : Config) (ts : TimeSheet) : cfg.requestText ts ≠ [] := by
  intro h
  have hheader := cfg.length_header (cfg.content ts).length
  rw [(List.append_eq_nil_iff.mp h).1, Config.headerlength, List.length_nil] at hheader
  omega

/-- The files that are open are empty, and only one is. -/
structure StoreInv (cfg : Config) (s : TimeSheetMgr) : Prop where
  kept : StoredApart cfg s
  holder : Exclusive s
  opened : ∀ name, s.BeingSaved name → ∀ f, s.files name = some f → f.text = []
  known : ∀ a ∈ s.unconfirmed, ∃ ts, s.heap.content a = some ts
  written : ∀ tid a, (s.pc tid).saves = some a → ∃ ts, s.heap.content a = some ts

theorem storeInv_start (cfg : Config) (files : Bytes → Option Bytes) :
    StoreInv cfg (TimeSheetMgr.start files) where
  kept := ⟨fun _ _ h => (nomatch h.1), fun _ _ _ _ h => (nomatch h.1)⟩
  holder _ h := h.elim
  opened := by
    rintro name ⟨tid, a, ts, h, _⟩
    cases h
  known _ h := nomatch h
  written _ _ h := nomatch h

section Steps

variable {cfg : Config} {s t : TimeSheetMgr} {tid : Nat}

theorem Pc.atList_of_saves {pc : Pc} {a : Nat} (h : pc.saves = some a) : pc.AtList := by
  cases pc with
  | saving _ _ _ => trivial
  | _ => cases h

/-- While the thread at the list is `tid`, no other has a file open. -/
theorem Exclusive.saver {i a : Nat} (h : Exclusive s) (hat : (s.pc tid).AtList)
    (hi : (s.pc i).saves = some a) : i = tid :=
  Option.some.inj ((h i (Pc.atList_of_saves hi)).symm.trans (h tid hat))

theorem Exclusive.not_beingSaved (h : Exclusive t) (hat : (t.pc tid).AtList)
    (hno : (t.pc tid).saves = none) (name : Bytes) : ¬ t.BeingSaved name := by
  intro h
  rcases h with ⟨i, a, ts, hi, _⟩
  rw [h.saver hat hi, hno] at hi
  cases hi

/-- A step that opens, closes and removes no file. -/
theorem StoreInv.quiet (h : StoreInv cfg s) (hholder : Exclusive t)
    (hsaves : ∀ i, (t.pc i).saves = (s.pc i).saves) (hfiles : t.files = s.files)
    (hheap : ∀ a ts, s.heap.content a = some ts → t.heap.content a = some ts)
    (hsub : ∀ a ∈ t.unconfirmed, a ∈ s.unconfirmed) : StoreInv cfg t := by
  have hwas : ∀ a ts, t.Unconfirmed a ts → s.Unconfirmed a ts := by
    rintro a ts ⟨ha, hts⟩
    obtain ⟨ts', hts'⟩ := h.known a (hsub a ha)
    cases hts.symm.trans (hheap a ts' hts')
    exact ⟨hsub a ha, hts'⟩
  have hopen : ∀ name, t.BeingSaved name → s.BeingSaved name := by
    rintro name ⟨i, a, ts, hi, hts, hname⟩
    rw [hsaves] at hi
    obtain ⟨ts', hts'⟩ := h.written i a hi
    cases hts.symm.trans (hheap a ts' hts')
    exact ⟨i, a, ts, hi, hts', hname⟩
  constructor
  · constructor
    · intro a ts ha
      rcases h.kept.stored a ts (hwas a ts ha) with ⟨i, b, tb, hi, htb, hname⟩ | hstored
      · exact .inl ⟨i, b, tb, (hsaves i).trans hi, hheap b tb htb, hname⟩
      · rw [TimeSheetMgr.Stores, hfiles]
        exact .inr hstored
    · exact fun a b ta tb ha hb => h.kept.apart a b ta tb (hwas a ta ha) (hwas b tb hb)
  · exact hholder
  · intro name hname f hf
    exact h.opened name (hopen name hname) f (hfiles ▸ hf)
  · intro a ha
    obtain ⟨ts, hts⟩ := h.known a (hsub a ha)
    exact ⟨ts, hheap a ts hts⟩
  · intro i a hi
    obtain ⟨ts, hts⟩ := h.written i a ((hsaves i).symm.trans hi)
    exact ⟨ts, hheap a ts hts⟩

/-- A thread that saves neither before nor after. -/
theorem saves_update {pc : Pc} (hpc : t.pc = Function.update s.pc tid pc)
    (hsame : pc.saves = (s.pc tid).saves) (i : Nat) : (t.pc i).saves = (s.pc i).saves := by
  by_cases hi : i = tid
  · rw [hpc, hi, Function.update_self, hsame]
  · rw [hpc, Function.update_of_ne hi]

/-- The file of a failed request is opened, where no other file is open. -/
theorem StoreInv.open {a : Nat} {todo vector_erase : List Nat} {ts : TimeSheet}
    (h : StoreInv cfg s) (hpc : s.pc tid = .listing (a :: todo) vector_erase)
    (hts : s.heap.content a = some ts)
    (ht : t = (s.at_ tid (.saving a todo vector_erase)).setFile ts.m_time (some ⟨some a, []⟩)) :
    StoreInv cfg t := by
  have hat : (s.pc tid).AtList := hpc ▸ trivial
  have hclosed : ∀ name, ¬ s.BeingSaved name := h.holder.not_beingSaved hat (by rw [hpc]; rfl)
  have hself : (t.pc tid).saves = some a := by
    rw [ht, TimeSheetMgr.setFile_pc, TimeSheetMgr.at_pc, Function.update_self]
    rfl
  have hholder : Exclusive t := by
    rw [ht]
    exact h.holder.update rfl rfl fun _ => hat
  have hsaver : ∀ i b, (t.pc i).saves = some b → b = a := by
    intro i b hi
    obtain rfl := hholder.saver (Pc.atList_of_saves hself) hi
    exact Option.some.inj (hi.symm.trans hself)
  have hheap : t.heap = s.heap := by rw [ht]; rfl
  have hun : t.unconfirmed = s.unconfirmed := by rw [ht]; rfl
  have hopen : t.BeingSaved ts.m_time := ⟨tid, a, ts, hself, hheap ▸ hts, rfl⟩
  have hwas : ∀ b tb, t.Unconfirmed b tb → s.Unconfirmed b tb :=
    fun b tb hb => ⟨hun ▸ hb.1, hheap ▸ hb.2⟩
  constructor
  · constructor
    · intro b tb hb
      by_cases hname : tb.m_time = ts.m_time
      · rw [hname]
        exact .inl hopen
      · obtain ⟨f, hf, htext⟩ := (h.kept.stored b tb (hwas b tb hb)).resolve_left (hclosed _)
        refine .inr ⟨f, ?_, htext⟩
        rw [ht, TimeSheetMgr.setFile_files, Function.update_of_ne hname]
        exact hf
    · exact fun b c tb tc hb hc => h.kept.apart b c tb tc (hwas b tb hb) (hwas c tc hc)
  · exact hholder
  · rintro name ⟨i, b, tb, hi, htb, rfl⟩ f hf
    rw [hsaver i b hi, hheap, hts] at htb
    cases htb
    rw [ht, TimeSheetMgr.setFile_files, Function.update_self] at hf
    cases hf
    rfl
  · rw [hun, hheap]
    exact h.known
  · intro i b hi
    rw [hsaver i b hi, hheap]
    exact ⟨ts, hts⟩

/-- The text is written, and the file closed. -/
theorem StoreInv.close {a : Nat} {todo vector_erase : List Nat} {ts : TimeSheet}
    (h : StoreInv cfg s) (hpc : s.pc tid = .saving a todo vector_erase)
    (hts : s.heap.content a = some ts) (hg : KeepsStored s (.act (.save tid)))
    (ht : t = { (s.at_ tid (.listing todo vector_erase)).setFile ts.m_time
        ((s.files ts.m_time).map fun f => ⟨some a, f.text ++ cfg.requestText ts⟩) with
      unconfirmed := s.unconfirmed ++ [a] }) : StoreInv cfg t := by
  have hat : (s.pc tid).AtList := hpc ▸ trivial
  have hself : (s.pc tid).saves = some a := by rw [hpc]; rfl
  have hsaving : s.BeingSaved ts.m_time := ⟨tid, a, ts, hself, hts, rfl⟩
  obtain ⟨hfile, hown⟩ := hg a ts hself hts
  obtain ⟨f, hf⟩ := Option.isSome_iff_exists.mp hfile
  have hpc' : t.pc = Function.update s.pc tid (.listing todo vector_erase) := by rw [ht]; rfl
  have hholder : Exclusive t := by
    rw [ht]
    exact h.holder.update rfl rfl fun _ => hat
  have hclosed : ∀ i, (t.pc i).saves = none := by
    intro i
    by_cases hi : i = tid
    · rw [hpc', hi, Function.update_self]
      rfl
    · rw [hpc', Function.update_of_ne hi]
      cases hsaves : (s.pc i).saves with
      | none => rfl
      | some b => exact absurd (h.holder.saver hat hsaves) hi
  have hheap : t.heap = s.heap := by rw [ht]; rfl
  have hmem : ∀ b tb, t.Unconfirmed b tb → b = a ∧ tb = ts ∨ b ≠ a ∧ s.Unconfirmed b tb := by
    rintro b tb ⟨hb, htb⟩
    rw [hheap] at htb
    by_cases hba : b = a
    · rw [hba, hts] at htb
      exact .inl ⟨hba, (Option.some.inj htb).symm⟩
    · refine .inr ⟨hba, ?_, htb⟩
      rw [ht] at hb
      exact (List.mem_append.mp hb).resolve_right fun hb => hba (List.mem_singleton.mp hb)
  have hapart : ∀ b tb, b ≠ a → s.Unconfirmed b tb → tb.m_time ≠ ts.m_time :=
    fun b tb hba hb hname => hba (hown b tb hb hname)
  constructor
  · constructor
    · intro b tb hb
      right
      rcases hmem b tb hb with ⟨rfl, rfl⟩ | ⟨hba, hb⟩
      · refine ⟨⟨some b, f.text ++ cfg.requestText tb⟩, ?_, ?_⟩
        · rw [ht]
          change Function.update s.files tb.m_time _ tb.m_time = _
          rw [Function.update_self, hf, Option.map_some]
        · change f.text ++ cfg.requestText tb = _
          rw [h.opened _ hsaving f hf, List.nil_append]
      · have hname := hapart b tb hba hb
        rcases h.kept.stored b tb hb with ⟨i, c, tc, hi, htc, hc⟩ | ⟨g, hgf, htext⟩
        · obtain rfl := h.holder.saver hat hi
          cases hself.symm.trans hi
          cases hts.symm.trans htc
          exact absurd hc.symm hname
        · refine ⟨g, ?_, htext⟩
          rw [ht]
          change Function.update s.files ts.m_time _ tb.m_time = _
          rw [Function.update_of_ne hname, hgf]
    · intro b c tb tc hb hc hname
      rcases hmem b tb hb with ⟨rfl, rfl⟩ | ⟨hba, hb⟩
      · rcases hmem c tc hc with ⟨rfl, rfl⟩ | ⟨hca, hc⟩
        · rfl
        · exact absurd hname.symm (hapart c tc hca hc)
      · rcases hmem c tc hc with ⟨rfl, rfl⟩ | ⟨hca, hc⟩
        · exact absurd hname (hapart b tb hba hb)
        · exact h.kept.apart b c tb tc hb hc hname
  · exact hholder
  · rintro name ⟨i, b, tb, hi, _⟩
    rw [hclosed i] at hi
    cases hi
  · intro b hb
    rw [hheap]
    rw [ht] at hb
    rcases List.mem_append.mp hb with hb | hb
    · exact h.known b hb
    · exact ⟨ts, List.mem_singleton.mp hb ▸ hts⟩
  · intro i b hi
    rw [hclosed i] at hi
    cases hi

theorem StoreInv.delete {name : Bytes} {filelist : List Bytes} (h : StoreInv cfg s)
    (hpc : s.pc tid = .deleting name filelist) (hg : KeepsStored s (.act (.delete tid)))
    (ht : t = (s.at_ tid (.sending filelist)).setFile name none) : StoreInv cfg t := by
  have hsaves : ∀ i, (t.pc i).saves = (s.pc i).saves := by
    rw [ht]
    exact saves_update rfl (by rw [hpc]; rfl)
  have hheap : t.heap = s.heap := by rw [ht]; rfl
  have hun : t.unconfirmed = s.unconfirmed := by rw [ht]; rfl
  have hopen : ∀ n, t.BeingSaved n ↔ s.BeingSaved n := by
    intro n
    simp only [TimeSheetMgr.BeingSaved, hsaves, hheap]
  have hwas : ∀ b tb, t.Unconfirmed b tb → s.Unconfirmed b tb :=
    fun b tb hb => ⟨hun ▸ hb.1, hheap ▸ hb.2⟩
  constructor
  · constructor
    · intro b tb hb
      rw [hopen]
      by_cases hname : tb.m_time = name
      · rw [hname]
        exact .inl (hg name filelist hpc b tb (hwas b tb hb) hname)
      · refine (h.kept.stored b tb (hwas b tb hb)).imp_right ?_
        intro h
        rcases h with ⟨f, hf, htext⟩
        refine ⟨f, ?_, htext⟩
        rw [ht, TimeSheetMgr.setFile_files, Function.update_of_ne hname]
        exact hf
    · exact fun b c tb tc hb hc => h.kept.apart b c tb tc (hwas b tb hb) (hwas c tc hc)
  · rw [ht]
    exact h.holder.update rfl rfl False.elim
  · intro n hn f hf
    rw [hopen] at hn
    rw [ht, TimeSheetMgr.setFile_files] at hf
    by_cases hname : n = name
    · rw [hname, Function.update_self] at hf
      cases hf
    · rw [Function.update_of_ne hname] at hf
      exact h.opened n hn f hf
  · rw [hun, hheap]
    exact h.known
  · intro i b hi
    rw [hsaves] at hi
    rw [hheap]
    exact h.written i b hi

theorem StoreInv.restart (h : StoreInv cfg s) (hg : KeepsStored s .restart) :
    StoreInv cfg s.restart where
  kept := by
    refine ⟨fun b tb hb => ?_, h.kept.apart⟩
    exact .inr ((h.kept.stored b tb hb).resolve_left (hg b tb hb))
  holder _ hat := hat.elim
  opened := by
    rintro name ⟨i, b, tb, hi, _⟩
    cases hi
  known := h.known
  written _ _ hi := nomatch hi

theorem storeInv_act (h : StoreInv cfg s) {l : UploadLabel} (hg : KeepsStored s (.act l))
    (hs : (uploads cfg).step s l = some t) : StoreInv cfg t := by
  have hholder : Exclusive t := exclusive_step h.holder hs
  cases l with
  | insert tid tm lab_no utype img =>
      obtain ⟨hpc, rfl⟩ := TimeSheetMgr.insert_cases hs
      exact h.quiet hholder (saves_update rfl (by rw [hpc]; rfl)) rfl (fun _ _ hts => hts)
        fun _ ha => ha
  | push tid =>
      obtain ⟨ts, hpc, _, rfl⟩ := TimeSheetMgr.push_cases hs
      refine h.quiet hholder (saves_update rfl (by rw [hpc]; rfl)) rfl (fun a v hv => ?_)
        fun _ ha => ha
      exact (Heap.content_allocAll_old (Heap.lt_length_of_content hv) [ts]).trans hv
  | upload tid filelist =>
      obtain ⟨hpc, ⟨_, rfl⟩ | ⟨names, _, _, rfl⟩⟩ := TimeSheetMgr.upload_cases hs
      · exact h
      · exact h.quiet hholder (saves_update rfl (by rw [hpc]; rfl)) rfl (fun _ _ hts => hts)
          fun _ ha => ha
  | send tid reply =>
      obtain ⟨name, filelist, f, hpc, _, hcase⟩ := TimeSheetMgr.send_cases hs
      rcases hcase with ⟨_, rfl⟩ | ⟨_, rfl⟩ | ⟨_, _, rfl⟩ | ⟨a, _, _, rfl⟩
      · exact h.quiet hholder (saves_update rfl (by rw [hpc]; rfl)) rfl (fun _ _ hts => hts)
          fun _ ha => ha
      · exact h.quiet hholder (saves_update rfl (by rw [hpc]; rfl)) rfl (fun _ _ hts => hts)
          fun _ ha => ha
      · exact h.quiet hholder (saves_update rfl (by rw [hpc]; rfl)) rfl (fun _ _ hts => hts)
          fun _ ha => ha
      · exact h.quiet hholder (saves_update rfl (by rw [hpc]; rfl)) rfl (fun _ _ hts => hts)
          fun _ ha => (List.mem_filter.mp ha).1
  | delete tid =>
      obtain ⟨name, filelist, hpc, rfl⟩ := TimeSheetMgr.delete_cases hs
      exact h.delete hpc hg rfl
  | lock tid =>
      obtain ⟨hpc, _, rfl⟩ := TimeSheetMgr.lock_cases hs
      exact h.quiet hholder (saves_update rfl (by rw [hpc]; rfl)) rfl (fun _ _ hts => hts)
        fun _ ha => ha
  | request tid reply =>
      obtain ⟨a, todo, vector_erase, ts, hpc, hts, hcase⟩ := TimeSheetMgr.request_cases hs
      rcases hcase with ⟨_, rfl⟩ | ⟨_, rfl⟩ | ⟨_, rfl⟩
      · exact h.quiet hholder (saves_update rfl (by rw [hpc]; rfl)) rfl (fun _ _ hts => hts)
          fun _ ha => (List.mem_filter.mp ha).1
      · exact h.quiet hholder (saves_update rfl (by rw [hpc]; rfl)) rfl (fun _ _ hts => hts)
          fun _ ha => ha
      · exact h.open hpc (Heap.content_of_deref hts) rfl
  | save tid =>
      obtain ⟨a, todo, vector_erase, ts, hpc, hts, rfl⟩ := TimeSheetMgr.save_cases hs
      exact h.close hpc (Heap.content_of_deref hts) hg rfl
  | erase tid =>
      obtain ⟨a, vector_erase, hpc, rfl⟩ := TimeSheetMgr.erase_cases hs
      exact h.quiet hholder (saves_update rfl (by rw [hpc]; rfl)) rfl
        (fun b v hv => (Heap.content_free s.heap a b).trans hv) fun _ hb => hb
  | unlock tid =>
      obtain ⟨hpc, rfl⟩ := TimeSheetMgr.unlock_cases hs
      exact h.quiet hholder (saves_update rfl (by rw [hpc]; rfl)) rfl (fun _ _ hts => hts)
        fun _ ha => ha

theorem storeInv_step (s : TimeSheetMgr) (l : StoreLabel) (t : TimeSheetMgr)
    (h : StoreInv cfg s) (hg : KeepsStored s l) (hs : (restarts cfg).step s l = some t) :
    StoreInv cfg t := by
  cases l with
  | act l => exact storeInv_act h hg hs
  | restart =>
      obtain rfl := Option.some.inj hs
      exact h.restart hg

/-! ## The steps that lose a time sheet -/

/-- Either the text goes to a file that is gone, or to that of another time sheet. -/
theorem broken_of_save (h : StoreInv cfg s) (hg : ¬ KeepsStored s (.act (.save tid)))
    (hs : s.save cfg tid = some t) : ¬ StoredApart cfg t := by
  obtain ⟨a, todo, vector_erase, ts, hpc, hts, ht⟩ := TimeSheetMgr.save_cases hs
  have hts := Heap.content_of_deref hts
  have hheap : t.heap = s.heap := by rw [ht]; rfl
  have ha : t.Unconfirmed a ts := by
    refine ⟨?_, hheap ▸ hts⟩
    rw [ht]
    exact List.mem_append_right _ List.mem_cons_self
  intro hkept
  refine hg fun a' ts' hsaves hts' => ?_
  rw [hpc] at hsaves
  cases hsaves
  cases hts.symm.trans hts'
  constructor
  · rcases hkept.stored a ts ha with hopen | ⟨f, hf, _⟩
    · have hat : (t.pc tid).AtList := by
        rw [ht]
        change (Function.update s.pc tid _ tid).AtList
        rw [Function.update_self]
        trivial
      have hstep : (uploads cfg).step s (.save tid) = some t := hs
      have hholder : Exclusive t := exclusive_step h.holder hstep
      refine absurd hopen (hholder.not_beingSaved hat ?_ _)
      rw [ht]
      change (Function.update s.pc tid _ tid).saves = none
      rw [Function.update_self]
      rfl
    · rw [ht] at hf
      change Function.update s.files ts.m_time _ ts.m_time = some f at hf
      rw [Function.update_self] at hf
      obtain ⟨g, hgf, _⟩ := Option.map_eq_some_iff.mp hf
      rw [hgf]
      rfl
  · intro b tb hb hname
    refine hkept.apart b a tb ts ⟨?_, hheap ▸ hb.2⟩ ha hname
    rw [ht]
    exact List.mem_append_left _ hb.1

/-- The file of an unconfirmed time sheet is gone. -/
theorem broken_of_delete (hg : ¬ KeepsStored s (.act (.delete tid)))
    (hs : (uploads cfg).step s (.delete tid) = some t) : ¬ StoredApart cfg t := by
  obtain ⟨name, filelist, hpc, ht⟩ := TimeSheetMgr.delete_cases hs
  intro hkept
  refine hg fun name' filelist' hpc' b tb hb hname => ?_
  cases hpc.symm.trans hpc'
  have hb' : t.Unconfirmed b tb := by
    rw [ht]
    exact hb
  rcases hkept.stored b tb hb' with ⟨i, c, tc, hi, htc, hc⟩ | ⟨f, hf, _⟩
  · have hsaves : (t.pc i).saves = (s.pc i).saves := by
      rw [ht]
      exact saves_update rfl (by rw [hpc]; rfl) i
    rw [ht] at htc
    exact ⟨i, c, tc, hsaves.symm.trans hi, htc, hc.trans hname⟩
  · rw [ht, TimeSheetMgr.setFile_files, hname, Function.update_self] at hf
    cases hf

/-- The file that was open is left empty. -/
theorem broken_of_restart (h : StoreInv cfg s) (hg : ¬ KeepsStored s .restart) :
    ¬ StoredApart cfg s.restart := by
  intro hkept
  refine hg fun b tb hb hopen => ?_
  rcases hkept.stored b tb hb with ⟨i, c, tc, hi, _⟩ | ⟨f, hf, htext⟩
  · cases hi
  · exact cfg.requestText_ne_nil tb (htext.symm.trans (h.opened _ hopen f hf))

theorem broken_of_lost (s : TimeSheetMgr) (l : StoreLabel) (t : TimeSheetMgr)
    (h : StoreInv cfg s) (hg : ¬ KeepsStored s l) (hs : (restarts cfg).step s l = some t) :
    ¬ StoredApart cfg t := by
  cases l with
  | act l =>
      cases l with
      | save tid => exact broken_of_save h hg hs
      | delete tid => exact broken_of_delete hg hs
      | _ => exact absurd trivial hg
  | restart =>
      obtain rfl := Option.some.inj hs
      exact broken_of_restart h hg

end Steps

/-- Every unconfirmed time sheet has a file of its own in all states of a run, restarts
included, exactly when no step of the run loses one. -/
theorem storedApart_iff (cfg : Config) (files : Bytes → Option Bytes) (labels : List StoreLabel) :
    (restarts cfg).AllStates (StoredApart cfg) (TimeSheetMgr.start files) labels ↔
      (restarts cfg).AllSteps KeepsStored (TimeSheetMgr.start files) labels :=
  Machine.allStates_iff_allSteps (fun _ h => h.kept) storeInv_step broken_of_lost
    (storeInv_start cfg files) labels

/-- Two entries in one second, whose requests both fail, go by one file. -/
theorem two_entries_share_file :
    ¬ (restarts gateConfig).AllStates (StoredApart gateConfig) (TimeSheetMgr.start fun _ => none)
      ([entry 0, .push 0, .insert 0 entryTime (ascii "LM00000812") 76 [], .push 0,
        .upload 1 (some []), .lock 1, .request 1 none, .save 1, .request 1 none, .save 1,
        .unlock 1].map .act ++ [.restart]) := by
  intro h
  have hkept := h.last rfl
  have hsame := hkept.apart 0 1 (.new entryTime (ascii "LM00000811") 76 [])
    (.new entryTime (ascii "LM00000812") 76 []) ⟨by decide, rfl⟩ ⟨by decide, rfl⟩
    (show entryTime.text = entryTime.text from rfl)
  cases hsame

end Acu.Attendance
