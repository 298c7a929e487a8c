import Acu.Delegator.Validate
import Acu.Employee.Blocks
import Acu.Employee.Concurrent

/-!
# What the memory held before

The search of the list and the checks, in two runs that differ in what the blocks of
the records held before. They come out alike as long as no card number and no type
is needed that the text does not give.
-/

namespace Acu.Delegator

open Acu.Core Acu.Core.CMemory Tools Employee EmployeeInfoMgr

/-! ## Runs -/

/-- What a decision is made from: a reply of the server, or the text of the database. -/
inductive Source where
  | reply (xml_buf : Bytes)
  | database (xml_buf : Bytes)

/-- What the blocks held before: that of the record `getInfo` fills, and those of the list. -/
structure HeapBefore where
  ei : Uninit
  elems : Nat → Uninit

/-- Which record `searchDB` returns, and what `checkValidate` says of it. -/
structure Outcome where
  index : Option Nat
  decision : Option (Bool × Bytes)
  deriving DecidableEq

section Runs

variable (cfg : Settings) (today : Date) (sn : Bytes)

/-- The search of the list from index `i` on, and the check of the record that is copied. -/
def listOutcome (block : Uninit) (elems : List EmployeeInfo) (i : Nat) : Option Outcome := do
  let index ← searchIndex sn (elems.map some) i
  let (ret, ei) ← localDB ⟨true, elems⟩ sn (EmployeeInfo.new block)
  some ⟨index, if ret then some (checkValidate cfg today ei) else none⟩

def Source.outcome (signedChar : Bool) (heap : HeapBefore) : Source → Option Outcome
  | .reply xml_buf => do
      let (ret, ei) ← fillEmployeeInfo signedChar cfg.employee.m_bDisplayPhoto xml_buf
        (EmployeeInfo.new heap.ei)
      some ⟨none, if ret then some (checkValidate cfg today ei) else none⟩
  | .database xml_buf => do
      let elems ← fillEmployeeInfoes heap.elems xml_buf []
      listOutcome cfg today sn heap.ei elems 0

end Runs

/-! ## What the text has to give -/

/-- The text tells whether a record has the number: it gives a card number, and one that fits
its field or differs from the number before the field ends. -/
def Settled (sn : Bytes) (f : Found) : Prop :=
  ∃ s, f.serial = some s ∧ (s.length < 15 ∨ ¬ s.take 15 <+: sn)

/-- Who is at work has a type. -/
def TypeGiven (in_out_gb : Bytes) (utype : Option UInt8) : Prop :=
  in_out_gb = ascii "0002" → utype ≠ none

/-- The search gets to no record but such as are settled, and ends at one that has a type. -/
def SearchSettled (sn : Bytes) : List Found → Prop
  | [] => True
  | f :: fs =>
      Settled sn f ∧
        if f.serial = some sn then TypeGiven f.info.in_out_gb f.utype else SearchSettled sn fs

def Source.Determined (cfg : Settings) (sn : Bytes) (signedChar : Bool) : Source → Prop
  | .reply xml_buf =>
      ∀ in_out_gb utype, foundReply signedChar cfg.employee.m_bDisplayPhoto xml_buf =
        some (in_out_gb, utype) → TypeGiven in_out_gb utype
  | .database xml_buf => ∀ fs, foundRecords xml_buf = some fs → SearchSettled sn fs

/-! ## Checks -/

section Checks

variable {cfg : Settings} {today : Date} {a b : EmployeeInfo}

theorem decision_fields (h : a.forget = b.forget) :
    a.in_out_gb = b.in_out_gb ∧ a.zone_code = b.zone_code ∧ a.ent_co_ymd = b.ent_co_ymd ∧
      a.rtr_co_ymd = b.rtr_co_ymd := by
  simp only [EmployeeInfo.forget, EmployeeInfo.mk.injEq] at h
  tauto

theorem checkValidate_forget (h : a.forget = b.forget)
    (htype : a.in_out_gb = ascii "0002" → a.utype = b.utype) :
    checkValidate cfg today a = checkValidate cfg today b := by
  obtain ⟨hin, hzone, hent, hrtr⟩ := decision_fields h
  exact checkValidate_congr hin htype hzone hent hrtr

end Checks

/-! ## Looking through the list -/

section Lookup

variable {cfg : Settings} {today : Date} {sn : Bytes} {block : Uninit} {t : EmployeeInfo}

theorem listOutcome_skip (h : strcmpEq t.serial_number.val (sn ++ [0]) = some false)
    (ts : List EmployeeInfo) (i : Nat) :
    listOutcome cfg today sn block (t :: ts) i = listOutcome cfg today sn block ts (i + 1) := by
  simp [listOutcome, searchIndex, localDB, searchDB, h]

theorem listOutcome_undefined (h : strcmpEq t.serial_number.val (sn ++ [0]) = none)
    (ts : List EmployeeInfo) (i : Nat) : listOutcome cfg today sn block (t :: ts) i = none := by
  simp [listOutcome, searchIndex, h]

theorem checkValidate_copy {ei : EmployeeInfo}
    (h : copyRecord (EmployeeInfo.new block) t = some ei) :
    checkValidate cfg today ei = checkValidate cfg today t := by
  have hcopy := copyRecord_copyOf h
  exact checkValidate_congr hcopy.in_out_gb (fun _ => hcopy.utype) hcopy.zone_code
    hcopy.ent_co_ymd hcopy.rtr_co_ymd

theorem listOutcome_found (h0 : 0 ∉ sn) (h : strcmpEq t.serial_number.val (sn ++ [0]) = some true)
    (ts : List EmployeeInfo) (i : Nat) :
    listOutcome cfg today sn block (t :: ts) i =
      some ⟨some i, some (checkValidate cfg today t)⟩ := by
  obtain ⟨ei, hei⟩ := copyRecord_terminated (cstring_of_strcmpEq h0 h) (EmployeeInfo.new block)
  simp [listOutcome, searchIndex, localDB, searchDB, h, hei, checkValidate_copy hei]

end Lookup

/-! ## Settled searches -/

section Settled

variable {cfg : Settings} {today : Date} {sn : Bytes} {f : Found}

theorem place_serial (block : Uninit) {s : Bytes} (h : f.serial = some s) :
    (f.place block).serial_number.val =
      (s ++ List.replicate 15 0).take 15 ++ block.serial_number.val.drop 15 := by
  simp only [Found.place, EmployeeInfo.place, h, Option.elim_some]
  rfl

theorem place_serial_none (block : Uninit) (h : f.serial = none) :
    (f.place block).serial_number = block.serial_number := by
  simp only [Found.place, EmployeeInfo.place, h]
  rfl

theorem strcmpEq_settled (h0 : 0 ∉ sn) (h : Settled sn f) (block : Uninit) :
    strcmpEq (f.place block).serial_number.val (sn ++ [0]) =
      some (decide (f.serial = some sn)) := by
  rcases h with ⟨s, hs, hcase⟩
  have htext := f.serial_text s hs
  rw [hs]
  by_cases hshort : s.length < 15
  · have hplace : (f.place block).serial_number = strncpy block.serial_number s 15 serial_fits := by
      simp [Found.place, EmployeeInfo.place, hs]
    rw [hplace, strcmpEq_cstring (cstring_strncpy _ _ htext hshort) h0]
    simp
  · have hprefix : ¬ s.take 15 <+: sn := hcase.resolve_left hshort
    have hne : s ≠ sn := fun h => hprefix (h ▸ List.take_prefix 15 s)
    have htake : (s ++ List.replicate 15 0).take 15 = s.take 15 :=
      List.take_append_of_le_length (by omega)
    rw [place_serial block hs, htake, strcmpEq_of_not_prefix
      (fun h => htext (List.mem_of_mem_take h)) hprefix]
    simp [hne]

/-- A settled search comes out alike in all blocks. -/
theorem listOutcome_settled (h0 : 0 ∉ sn) {fs : List Found} (h : SearchSettled sn fs)
    (heap heap' : HeapBefore) (i : Nat) :
    listOutcome cfg today sn heap.ei (Found.placeAll heap.elems i fs) i =
      listOutcome cfg today sn heap'.ei (Found.placeAll heap'.elems i fs) i := by
  induction fs generalizing i with
  | nil => rfl
  | cons f fs ih =>
      rcases h with ⟨hsettled, hrest⟩
      have hcmp := fun block => strcmpEq_settled h0 hsettled block
      by_cases hf : f.serial = some sn
      · rw [if_pos hf] at hrest
        simp only [hf, decide_true] at hcmp
        rw [Found.placeAll, Found.placeAll, listOutcome_found h0 (hcmp _),
          listOutcome_found h0 (hcmp _)]
        refine congrArg (fun d => some (Outcome.mk (some i) (some d))) ?_
        refine checkValidate_forget rfl fun hstatus => ?_
        obtain ⟨b, hb⟩ := Option.ne_none_iff_exists'.mp (hrest hstatus)
        simp [Found.place, EmployeeInfo.place, hb]
      · rw [if_neg hf] at hrest
        simp only [hf, decide_false] at hcmp
        rw [Found.placeAll, Found.placeAll, listOutcome_skip (hcmp _), listOutcome_skip (hcmp _)]
        exact ih hrest (i + 1)

end Settled

/-! ## Searches that are not settled -/

section Unsettled

variable {cfg : Settings} {today : Date} {sn : Bytes} {f : Found}

/-- A block that holds the number. -/
def hit (sn : Bytes) : Uninit :=
  ⟨⟨(sn ++ List.replicate 16 0).take 16, by simp⟩, 0, 0⟩

/-- A block that differs from the number in its first byte, and in the last one of the field. -/
def miss (sn : Bytes) : Uninit :=
  ⟨⟨List.replicate 15 ((sn ++ [0]).getD 0 0 + 1) ++ [(sn ++ [0]).getD 15 0 + 1], by simp⟩, 0, 0⟩

theorem not_settled_cases (h : ¬ Settled sn f) :
    f.serial = none ∨ ∃ s, f.serial = some s ∧ 15 ≤ s.length ∧ s.take 15 <+: sn := by
  cases hf : f.serial with
  | none => exact .inl rfl
  | some s =>
      refine .inr ⟨s, rfl, ?_, ?_⟩
      · by_contra hlen
        exact h ⟨s, hf, .inl (by omega)⟩
      · by_contra hp
        exact h ⟨s, hf, .inr hp⟩

theorem strcmpEq_hit (h0 : 0 ∉ sn) (h : ¬ Settled sn f) :
    strcmpEq (f.place (hit sn)).serial_number.val (sn ++ [0]) ≠ some false := by
  have hself : (f.place (hit sn)).serial_number.val = (sn ++ List.replicate 16 0).take 16 := by
    obtain hnone | ⟨s, hs, hlen, r, hr⟩ := not_settled_cases h
    · rw [place_serial_none _ hnone]
      rfl
    · have hlen15 : (s.take 15).length = 15 := by
        rw [List.length_take]
        omega
      have hfirst : s.take 15 = ((sn ++ List.replicate 16 0).take 16).take 15 := by
        rw [List.take_take, ← hr, List.append_assoc, List.take_left' (by omega)]
      have hblock : (hit sn).serial_number.val = (sn ++ List.replicate 16 0).take 16 := rfl
      rw [place_serial _ hs, List.take_append_of_le_length hlen, hblock, hfirst,
        List.take_append_drop]
  rw [hself]
  exact strcmpEq_self h0 (by omega)

theorem strcmpEq_miss (h : ¬ Settled sn f) :
    strcmpEq (f.place (miss sn)).serial_number.val (sn ++ [0]) = some false := by
  obtain hnone | ⟨s, hs, hlen, r, hr⟩ := not_settled_cases h
  · rw [place_serial_none _ hnone]
    cases hsn : sn with
    | nil => simp [miss, strcmpEq, List.replicate_succ]
    | cons b bs => simp [miss, strcmpEq, List.replicate_succ]
  · have hlen15 : (s.take 15).length = 15 := by
      rw [List.length_take]
      omega
    have htext : 0 ∉ s.take 15 := fun h => f.serial_text s hs (List.mem_of_mem_take h)
    have hblock : (miss sn).serial_number.val.drop 15 = [(sn ++ [0]).getD 15 0 + 1] := rfl
    have hlast : (sn ++ [0]).getD 15 0 = (r ++ [0]).getD 0 0 := by
      rw [← hr, List.append_assoc, List.getD_eq_getElem?_getD, List.getD_eq_getElem?_getD,
        List.getElem?_append_right (by omega), hlen15]
    rw [place_serial _ hs, List.take_append_of_le_length hlen, hblock, hlast, ← hr,
      List.append_assoc, strcmpEq_append htext]
    cases r with
    | nil => simp [strcmpEq]
    | cons b bs => simp [strcmpEq]

/-- With blocks that differ from the number, a search comes to its end. -/
theorem listOutcome_miss (cfg : Settings) (today : Date) (h0 : 0 ∉ sn) (block : Uninit)
    (fs : List Found) (i : Nat) :
    ∃ o, listOutcome cfg today sn block (Found.placeAll (fun _ => miss sn) i fs) i = some o ∧
      ∀ j, o.index = some j → i ≤ j := by
  induction fs generalizing i with
  | nil => exact ⟨⟨none, none⟩, rfl, fun j hj => by cases hj⟩
  | cons f fs ih =>
      obtain ⟨o, ho, hindex⟩ := ih (i + 1)
      have hskip (h : strcmpEq (f.place (miss sn)).serial_number.val (sn ++ [0]) = some false) :
          ∃ o, listOutcome cfg today sn block (Found.placeAll (fun _ => miss sn) i (f :: fs)) i =
            some o ∧ ∀ j, o.index = some j → i ≤ j := by
        refine ⟨o, ?_, fun j hj => Nat.le_of_succ_le (hindex j hj)⟩
        rw [Found.placeAll, listOutcome_skip h, ho]
      by_cases hsettled : Settled sn f
      · have hcmp := strcmpEq_settled h0 hsettled (miss sn)
        by_cases hf : f.serial = some sn
        · rw [hf, decide_eq_true rfl] at hcmp
          refine ⟨_, listOutcome_found h0 hcmp _ i, fun j hj => ?_⟩
          cases hj
          exact Nat.le_refl i
        · rw [decide_eq_false hf] at hcmp
          exact hskip hcmp
      · exact hskip (strcmpEq_miss hsettled)

/-- A search that is not settled comes out differently in two kinds of blocks. -/
theorem exists_listOutcome_ne (cfg : Settings) (today : Date) (h0 : 0 ∉ sn) {fs : List Found}
    (h : ¬ SearchSettled sn fs) (i : Nat) :
    ∃ block block', listOutcome cfg today sn emptyBlock (Found.placeAll (fun _ => block) i fs) i ≠
      listOutcome cfg today sn emptyBlock (Found.placeAll (fun _ => block') i fs) i := by
  induction fs generalizing i with
  | nil => exact absurd trivial h
  | cons f fs ih =>
      by_cases hsettled : Settled sn f
      · have hcmp := fun block => strcmpEq_settled h0 hsettled block
        by_cases hf : f.serial = some sn
        · simp only [hf, decide_true] at hcmp
          have htype : ¬ TypeGiven f.info.in_out_gb f.utype := by
            intro htype
            exact h ⟨hsettled, by rwa [if_pos hf]⟩
          obtain ⟨hstatus, hnone⟩ : f.info.in_out_gb = ascii "0002" ∧ f.utype = none := by
            simpa [TypeGiven] using htype
          refine ⟨{ emptyBlock with utype := 67 }, emptyBlock, ?_⟩
          rw [Found.placeAll, Found.placeAll, listOutcome_found h0 (hcmp _),
            listOutcome_found h0 (hcmp _)]
          have hblock (block : Uninit) : (f.place block).utype = block.utype := by
            simp [Found.place, EmployeeInfo.place, hnone]
          intro heq
          simp only [Option.some.injEq, Outcome.mk.injEq, true_and] at heq
          refine checkValidate_type_ne (a := f.place _) (b := f.place _) hstatus hstatus
            (hblock _) ?_ heq
          rw [hblock]
          decide
        · simp only [hf, decide_false] at hcmp
          have hrest : ¬ SearchSettled sn fs := by
            intro hrest
            exact h ⟨hsettled, by rwa [if_neg hf]⟩
          obtain ⟨block, block', hne⟩ := ih hrest (i + 1)
          refine ⟨block, block', ?_⟩
          rwa [Found.placeAll, Found.placeAll, listOutcome_skip (hcmp _),
            listOutcome_skip (hcmp _)]
      · refine ⟨hit sn, miss sn, ?_⟩
        obtain ⟨o, ho, hindex⟩ := listOutcome_miss cfg today h0 emptyBlock fs (i + 1)
        rw [Found.placeAll, Found.placeAll, listOutcome_skip (strcmpEq_miss hsettled), ho]
        have hhit := strcmpEq_hit h0 hsettled
        cases hcmp : strcmpEq (f.place (hit sn)).serial_number.val (sn ++ [0]) with
        | none =>
            rw [listOutcome_undefined hcmp]
            exact (Option.some_ne_none o).symm
        | some r =>
            cases r with
            | false => exact absurd hcmp hhit
            | true =>
                rw [listOutcome_found h0 hcmp]
                intro heq
                cases heq
                have hle := hindex i rfl
                omega

end Unsettled

/-! ## Decisions -/

section Decisions

variable {cfg : Settings} {today : Date} {sn : Bytes} {signedChar : Bool}

theorem reply_same_iff (xml_buf : Bytes) :
    (∀ heap heap', (Source.reply xml_buf).outcome cfg today sn signedChar heap =
      (Source.reply xml_buf).outcome cfg today sn signedChar heap') ↔
    (Source.reply xml_buf).Determined cfg sn signedChar := by
  cases hreply : foundReply signedChar cfg.employee.m_bDisplayPhoto xml_buf with
  | none =>
      obtain ⟨r, hr⟩ := fillEmployeeInfo_none hreply
      refine iff_of_true (fun heap heap' => ?_) fun in_out_gb utype h => ?_
      · simp only [Source.outcome, hr]
        cases r <;> rfl
      · rw [hreply] at h
        cases h
  | some found =>
      rcases found with ⟨in_out_gb, utype⟩
      obtain ⟨ei₀, rfl, hread⟩ := fillEmployeeInfo_some hreply
      have hdetermined : (Source.reply xml_buf).Determined cfg sn signedChar ↔
          TypeGiven ei₀.in_out_gb utype := by
        simp [Source.Determined, hreply]
      have houtcome (heap : HeapBefore) : ∃ ei : EmployeeInfo, ei.forget = ei₀.forget ∧
          ei.utype = utype.getD heap.ei.utype ∧
          (Source.reply xml_buf).outcome cfg today sn signedChar heap =
            some ⟨none, some (checkValidate cfg today ei)⟩ := by
        obtain ⟨ei, hfill, hforget, htype⟩ := hread heap.ei
        refine ⟨ei, hforget, htype, ?_⟩
        simp [Source.outcome, hfill]
      rw [hdetermined]
      constructor
      · intro hsame hstatus hnone
        let heap (block : Uninit) : HeapBefore := ⟨block, fun _ => emptyBlock⟩
        obtain ⟨a, hforget, htype, ha⟩ := houtcome (heap { emptyBlock with utype := 67 })
        obtain ⟨b, hforget', htype', hb⟩ := houtcome (heap emptyBlock)
        have heq := hsame (heap { emptyBlock with utype := 67 }) (heap emptyBlock)
        rw [ha, hb] at heq
        simp only [Option.some.injEq, Outcome.mk.injEq, true_and] at heq
        rw [hnone] at htype htype'
        refine checkValidate_type_ne ((decision_fields hforget).1.trans hstatus)
          ((decision_fields hforget').1.trans hstatus) htype ?_ heq
        rw [htype']
        decide
      · intro htype heap heap'
        obtain ⟨a, hforget, ha, hout⟩ := houtcome heap
        obtain ⟨b, hforget', hb, hout'⟩ := houtcome heap'
        rw [hout, hout']
        refine congrArg (fun d => some (Outcome.mk none (some d))) ?_
        refine checkValidate_forget (hforget.trans hforget'.symm) fun hstatus => ?_
        have hgiven := htype ((decision_fields hforget).1.symm.trans hstatus)
        obtain ⟨c, hc⟩ := Option.ne_none_iff_exists'.mp hgiven
        rw [ha, hb, hc]
        rfl

theorem database_same_iff (h0 : 0 ∉ sn) (xml_buf : Bytes) :
    (∀ heap heap', (Source.database xml_buf).outcome cfg today sn signedChar heap =
      (Source.database xml_buf).outcome cfg today sn signedChar heap') ↔
    (Source.database xml_buf).Determined cfg sn signedChar := by
  have houtcome (heap : HeapBefore) :
      (Source.database xml_buf).outcome cfg today sn signedChar heap =
        (foundRecords xml_buf).bind fun fs =>
          listOutcome cfg today sn heap.ei (Found.placeAll heap.elems 0 fs) 0 := by
    rw [Source.outcome, fillEmployeeInfoes_eq]
    cases foundRecords xml_buf <;> rfl
  constructor
  · intro hsame fs hfs
    by_contra hsettled
    obtain ⟨block, block', hne⟩ := exists_listOutcome_ne cfg today h0 hsettled 0
    apply hne
    have heq := hsame ⟨emptyBlock, fun _ => block⟩ ⟨emptyBlock, fun _ => block'⟩
    rwa [houtcome, houtcome, hfs] at heq
  · intro hsettled heap heap'
    rw [houtcome, houtcome]
    cases hfs : foundRecords xml_buf with
    | none => rfl
    | some fs => exact listOutcome_settled h0 (hsettled fs hfs) heap heap' 0

end Decisions

/-- What is decided is the same whatever the memory held before, if and only if the text gives
what the decision needs. -/
theorem outcome_same_iff_determined (cfg : Settings) (today : Date) {sn : Bytes} (h0 : 0 ∉ sn)
    (signedChar : Bool) (src : Source) :
    (∀ heap heap', src.outcome cfg today sn signedChar heap =
      src.outcome cfg today sn signedChar heap') ↔ src.Determined cfg sn signedChar := by
  cases src with
  | reply xml_buf => exact reply_same_iff xml_buf
  | database xml_buf => exact database_same_iff h0 xml_buf

/-! A reply that gives no type, and a database that gives no card number. -/

def secondGate : Settings := ⟨false, false, false, [], ascii "0002", ⟨false, [], [], false, []⟩⟩

def typeless : Source := .reply (ascii "<Table><IN_OUT_GB>0002</IN_OUT_GB></Table>" ++ [0])

def numberless : Source := .database (ascii "<Table><UTYPE>C</UTYPE></Table>" ++ [0])

/-- The byte that the block held lets the holder of the card in, or not. -/
theorem typeless_decided_by_block :
    typeless.outcome secondGate ⟨2014, 5, 1⟩ (ascii "253161024009") false
        ⟨{ emptyBlock with utype := 67 }, fun _ => emptyBlock⟩ = some ⟨none, some (true, [])⟩ ∧
      typeless.outcome secondGate ⟨2014, 5, 1⟩ (ascii "253161024009") false
          ⟨emptyBlock, fun _ => emptyBlock⟩ =
        some ⟨none, some (false, ascii "Authority Deny This Area")⟩ := by
  decide +kernel

theorem numberless_undetermined :
    ¬ numberless.Determined secondGate (ascii "253161024009") false := by
  intro h
  have hsame := (outcome_same_iff_determined secondGate ⟨2014, 5, 1⟩ (by decide) false
    numberless).mpr h
  have hheld := hsame ⟨emptyBlock, fun _ => hit (ascii "253161024009")⟩
    ⟨emptyBlock, fun _ => emptyBlock⟩
  revert hheld
  decide +kernel

end Acu.Delegator
