import Acu.Core.Heap
import Acu.Core.Machine
import Acu.Employee.Manager

/-!
# A lookup beside the refreshes

The reader thread looks a serial number up in the list while the timer thread
deletes and fills it. Each critical section is one step. The pointer that
`searchDB` returns is taken out of the vector behind the unlock, and the record
is copied from it field by field, so those are steps of their own.
-/

namespace Acu.Employee

open Acu.Core Acu.Core.CMemory EmployeeInfoMgr

/-! ## Copying a record field by field -/

/-- The members `getInfo` assigns. -/
inductive Field where
  | serial_number | company_name | ent_co_ymd | rtr_co_ymd | in_out_gb | lab_no | lab_name
  | pin_no | utype | zone_code
  deriving DecidableEq, Repr

namespace Field

def assign (t ei : EmployeeInfo) : Field → Option EmployeeInfo
  | .serial_number =>
      (strcpy ei.serial_number t.serial_number).map fun s => { ei with serial_number := s }
  | .company_name => some { ei with company_name := t.company_name }
  | .ent_co_ymd => some { ei with ent_co_ymd := t.ent_co_ymd.or ei.ent_co_ymd }
  | .rtr_co_ymd => some { ei with rtr_co_ymd := t.rtr_co_ymd.or ei.rtr_co_ymd }
  | .in_out_gb => some { ei with in_out_gb := t.in_out_gb }
  | .lab_no => some { ei with lab_no := t.lab_no }
  | .lab_name => some { ei with lab_name := t.lab_name }
  | .pin_no => some { ei with pin_no := t.pin_no }
  | .utype => some { ei with utype := t.utype }
  | .zone_code => some { ei with zone_code := t.zone_code }

/-- What follows the serial number, in the order of the statements. -/
def others : List Field :=
  [.company_name, .ent_co_ymd, .rtr_co_ymd, .in_out_gb, .lab_no, .lab_name, .pin_no, .utype,
    .zone_code]

def assignAll (t : EmployeeInfo) (fields : List Field) (ei : EmployeeInfo) :
    Option EmployeeInfo :=
  fields.foldlM (fun ei f => assign t ei f) ei

theorem assignAll_cons (t : EmployeeInfo) (f : Field) (fields : List Field) (ei : EmployeeInfo) :
    assignAll t (f :: fields) ei = (assign t ei f).bind (assignAll t fields) := rfl

/-- Field by field, the record is copied as a whole. -/
theorem assignAll_eq_copyRecord (ei t : EmployeeInfo) :
    assignAll t (.serial_number :: others) ei = copyRecord ei t := by
  rw [assignAll_cons, assign, copyRecord]
  cases strcpy ei.serial_number t.serial_number with
  | none => rfl
  | some s => rfl

end Field

/-- `ei` carries the number and the decision fields of `r`. -/
structure CopyOf (r ei : EmployeeInfo) : Prop where
  serial_number : cstring ei.serial_number.val = cstring r.serial_number.val
  in_out_gb : ei.in_out_gb = r.in_out_gb
  utype : ei.utype = r.utype
  zone_code : ei.zone_code = r.zone_code
  ent_co_ymd : ei.ent_co_ymd = r.ent_co_ymd
  rtr_co_ymd : ei.rtr_co_ymd = r.rtr_co_ymd

/-- Into a new record, a copy takes every decision field over. -/
theorem copyRecord_copyOf {block : Uninit} {r ei : EmployeeInfo}
    (h : copyRecord (EmployeeInfo.new block) r = some ei) : CopyOf r ei := by
  obtain ⟨s, hs, h⟩ := Option.bind_eq_some_iff.mp h
  cases h
  exact ⟨strcpy_cstring hs, rfl, rfl, rfl, Option.or_none, Option.or_none⟩

/-! ## The machine -/

/-- A database with a record under the number that is looked up. -/
structure Database (sn : Bytes) where
  recs : List EmployeeInfo
  has : ∃ r ∈ recs, cstring r.serial_number.val = some sn

/-- How the lookup ends: `NULL` from `searchDB`, a read of memory that is not there, or a copy. -/
inductive Outcome where
  | missing
  | undefined
  | copied (ei : EmployeeInfo)

/-- Where the reader thread stands in `getInfo`. -/
inductive Lookup where
  | searching
  | found (i : Nat)
  | copying (t : Nat) (next : Field) (rest : List Field) (ei : EmployeeInfo)
  | returned (o : Outcome)

/-- `cleared`: the timer thread stands between `deleteCache` and the filling. The databases
that were ever loaded are history. -/
structure Shared where
  heap : Heap EmployeeInfo
  m_vectorEmployeeInfo : List Nat
  cleared : Bool
  lookup : Lookup
  databases : List (List EmployeeInfo)

inductive SharedLabel (sn : Bytes) where
  | search
  | fetch
  | copy
  | deleteCache
  | fill (db : Database sn)

/-- The loop of `searchDB`, over what is read through each pointer of the vector. -/
def searchIndex (sn : Bytes) : List (Option EmployeeInfo) → Nat → Option (Option Nat)
  | [], _ => some none
  | none :: _, _ => none
  | some t :: ts, i => do
      if ← strcmpEq t.serial_number.val (sn ++ [0]) then some (some i)
      else searchIndex sn ts (i + 1)

namespace Shared

def search (sn : Bytes) (s : Shared) : Lookup :=
  match searchIndex sn (s.m_vectorEmployeeInfo.map s.heap.deref) 0 with
  | none => .returned .undefined
  | some none => .returned .missing
  | some (some i) => .found i

/-- `return m_vectorEmployeeInfo[i]`, behind the unlock. -/
def fetch (block : Uninit) (s : Shared) (i : Nat) : Lookup :=
  match s.m_vectorEmployeeInfo[i]? with
  | none => .returned .undefined
  | some t => .copying t .serial_number Field.others (EmployeeInfo.new block)

/-- What remains to be assigned from the record at `t`. -/
def advance (t : Nat) (rest : List Field) (ei : EmployeeInfo) : Lookup :=
  match rest with
  | [] => .returned (.copied ei)
  | next :: rest => .copying t next rest ei

/-- The next assignment from the record at `t`. -/
def copy (s : Shared) (t : Nat) (next : Field) (rest : List Field) (ei : EmployeeInfo) : Lookup :=
  match (s.heap.deref t).bind fun r => next.assign r ei with
  | none => .returned .undefined
  | some ei => advance t rest ei

def deleteCache (s : Shared) : Shared :=
  { s with
    heap := s.heap.freeAll s.m_vectorEmployeeInfo
    m_vectorEmployeeInfo := []
    cleared := true }

def fill (s : Shared) (recs : List EmployeeInfo) : Shared :=
  { s with
    heap := s.heap.allocAll recs
    m_vectorEmployeeInfo := s.m_vectorEmployeeInfo ++ s.heap.newAddresses recs
    cleared := false
    databases := s.databases ++ [recs] }

def step (sn : Bytes) (block : Uninit) (s : Shared) : SharedLabel sn → Option Shared
  | .search =>
      match s.lookup with
      | .searching => some { s with lookup := s.search sn }
      | _ => none
  | .fetch =>
      match s.lookup with
      | .found i => some { s with lookup := s.fetch block i }
      | _ => none
  | .copy =>
      match s.lookup with
      | .copying t next rest ei => some { s with lookup := s.copy t next rest ei }
      | _ => none
  | .deleteCache => if s.cleared then none else some s.deleteCache
  | .fill db => if s.cleared then some (s.fill db.recs) else none

/-- The list holds the old database, and the lookup is about to begin. -/
def start {sn : Bytes} (old : Database sn) : Shared where
  heap := Heap.allocAll [] old.recs
  m_vectorEmployeeInfo := Heap.newAddresses [] old.recs
  cleared := false
  lookup := .searching
  databases := [old.recs]

end Shared

def lookups (sn : Bytes) (block : Uninit) : Machine Shared (SharedLabel sn) where
  step := Shared.step sn block

/-- A lookup that has ended copied one record with the number, out of one of the databases. -/
def LookupCorrect (sn : Bytes) (s : Shared) : Prop :=
  ∀ o, s.lookup = .returned o → ∃ ei, o = .copied ei ∧
    ∃ db ∈ s.databases, ∃ r ∈ db, cstring r.serial_number.val = some sn ∧ CopyOf r ei

/-- A step by which neither thread gets into the other's way: the list is searched while it
is filled, the pointer is taken while the vector still holds a record with the number there,
and the list is not deleted while a record is being copied. -/
def KeepsApart (sn : Bytes) (s : Shared) : SharedLabel sn → Prop
  | .search => s.cleared = false
  | .fetch => ∀ i, s.lookup = .found i → ∃ t r, s.m_vectorEmployeeInfo[i]? = some t ∧
      s.heap.deref t = some r ∧ cstring r.serial_number.val = some sn
  | .deleteCache => ∀ t next rest ei, s.lookup ≠ .copying t next rest ei
  | .copy | .fill _ => True

/-! ## Steps that keep the threads apart -/

section Invariant

variable {sn : Bytes} {block : Uninit}

/-- Over a list that is all there, the search finds the first record with the number. -/
theorem searchIndex_found {recs : List EmployeeInfo} (h0 : 0 ∉ sn) (hlen : sn.length < 16)
    (h : ∃ r ∈ recs, cstring r.serial_number.val = some sn) (k : Nat) :
    ∃ i r, searchIndex sn (recs.map some) k = some (some (k + i)) ∧ recs[i]? = some r ∧
      cstring r.serial_number.val = some sn ∧ searchDB sn recs = some (some r) := by
  induction recs generalizing k with
  | nil =>
      rcases h with ⟨r, hr, _⟩
      cases hr
  | cons t ts ih =>
      have hcmp := strcmpEq_terminated (m := t.serial_number.val) h0
        (by rw [t.serial_number.property]; exact hlen)
      simp only [List.map_cons, searchIndex, searchDB, hcmp, Option.bind_eq_bind, Option.bind_some]
      by_cases ht : cstring t.serial_number.val = some sn
      · rw [if_pos (decide_eq_true ht), if_pos (decide_eq_true ht)]
        exact ⟨0, t, rfl, rfl, ht, rfl⟩
      · rw [if_neg (by simpa using ht), if_neg (by simpa using ht)]
        rcases h with ⟨r, hr, hserial⟩
        have hrest : ∃ r ∈ ts, cstring r.serial_number.val = some sn := by
          rcases List.mem_cons.mp hr with rfl | hr
          · exact absurd hserial ht
          · exact ⟨r, hr, hserial⟩
        obtain ⟨i, r', hi, hr', hs, hdb⟩ := ih hrest (k + 1)
        exact ⟨i + 1, r', by rw [hi, Nat.add_assoc, Nat.add_comm 1 i], hr', hs, hdb⟩

/-- What holds in every state of a run that keeps the threads apart. -/
structure Inv (sn : Bytes) (block : Uninit) (s : Shared) : Prop where
  loaded : s.cleared = false → ∃ db : Database sn, db.recs ∈ s.databases ∧
    s.m_vectorEmployeeInfo.map s.heap.deref = db.recs.map some
  emptied : s.cleared = true → s.m_vectorEmployeeInfo = []
  copying : ∀ t next rest ei, s.lookup = .copying t next rest ei →
    ∃ r, s.heap.deref t = some r ∧ t ∈ s.m_vectorEmployeeInfo ∧
      cstring r.serial_number.val = some sn ∧ (∃ db ∈ s.databases, r ∈ db) ∧
      Field.assignAll r (next :: rest) ei = copyRecord (EmployeeInfo.new block) r
  returned : LookupCorrect sn s

/-- A record that the vector points to comes from one of the databases. -/
theorem Inv.deref_vector {s : Shared} (h : Inv sn block s) {i t : Nat}
    (ht : s.m_vectorEmployeeInfo[i]? = some t) :
    ∃ r, s.heap.deref t = some r ∧ ∃ db ∈ s.databases, r ∈ db := by
  cases hc : s.cleared with
  | true =>
      rw [h.emptied hc] at ht
      cases ht
  | false =>
      obtain ⟨db, hdb, hmap⟩ := h.loaded hc
      have hi : (s.m_vectorEmployeeInfo.map s.heap.deref)[i]? = some (s.heap.deref t) := by
        rw [List.getElem?_map, ht, Option.map_some]
      rw [hmap, List.getElem?_map, Option.map_eq_some_iff] at hi
      rcases hi with ⟨r, hr, hrt⟩
      exact ⟨r, hrt.symm, db.recs, hdb, List.mem_of_getElem? hr⟩

theorem inv_start (old : Database sn) : Inv sn block (Shared.start old) where
  loaded _ := ⟨old, List.mem_singleton_self _, Heap.map_deref_newAddresses [] old.recs⟩
  emptied h := nomatch h
  copying _ _ _ _ h := nomatch h
  returned _ h := nomatch h

theorem Inv.search {s : Shared} (h : Inv sn block s) (hc : s.cleared = false) :
    Inv sn block { s with lookup := s.search sn } := by
  obtain ⟨db, hdb, hmap⟩ := h.loaded hc
  rcases db.has with ⟨r, hr, hserial⟩
  obtain ⟨h0, hlen⟩ := length_lt_of_serial hserial
  obtain ⟨i, _, hi, _⟩ := searchIndex_found h0 hlen db.has 0
  have hfound : s.search sn = .found (0 + i) := by rw [Shared.search, hmap, hi]
  rw [hfound]
  exact ⟨h.loaded, h.emptied, fun _ _ _ _ hl => (nomatch hl), fun _ hl => nomatch hl⟩

theorem Inv.fetch {s : Shared} (h : Inv sn block s) {i t : Nat} {r : EmployeeInfo}
    (ht : s.m_vectorEmployeeInfo[i]? = some t) (hr : s.heap.deref t = some r)
    (hserial : cstring r.serial_number.val = some sn) :
    Inv sn block { s with lookup := s.fetch block i } := by
  have hfetch : s.fetch block i =
      .copying t .serial_number Field.others (EmployeeInfo.new block) := by
    rw [Shared.fetch, ht]
  refine ⟨h.loaded, h.emptied, fun t' next rest ei hl => ?_, fun o hl => ?_⟩
  · rw [hfetch] at hl
    cases hl
    obtain ⟨r', hr', hdb⟩ := h.deref_vector ht
    obtain rfl : r = r' := Option.some.inj (hr.symm.trans hr')
    exact ⟨r, hr, List.mem_of_getElem? ht, hserial, hdb, Field.assignAll_eq_copyRecord _ r⟩
  · rw [hfetch] at hl
    cases hl

theorem Inv.copy {s : Shared} (h : Inv sn block s) {t : Nat} {next : Field} {rest : List Field}
    {ei : EmployeeInfo} (hl : s.lookup = .copying t next rest ei) :
    Inv sn block { s with lookup := s.copy t next rest ei } := by
  obtain ⟨r, hr, hmem, hserial, ⟨db, hdb, hrdb⟩, hall⟩ := h.copying t next rest ei hl
  obtain ⟨eiF, heiF⟩ := copyRecord_terminated hserial (EmployeeInfo.new block)
  rw [Field.assignAll_cons, heiF] at hall
  obtain ⟨ei', hassign, hrest⟩ := Option.bind_eq_some_iff.mp hall
  have hstep : s.copy t next rest ei = Shared.advance t rest ei' := by
    rw [Shared.copy, hr, Option.bind_some, hassign]
  cases rest with
  | nil =>
      refine ⟨h.loaded, h.emptied, fun t' next' rest' ei'' hl' => ?_, fun o hl' => ?_⟩
      · rw [hstep] at hl'
        cases hl'
      · rw [hstep] at hl'
        cases hl'
        obtain rfl : ei' = eiF := Option.some.inj hrest
        exact ⟨ei', rfl, db, hdb, r, hrdb, hserial, copyRecord_copyOf heiF⟩
  | cons next' rest' =>
      refine ⟨h.loaded, h.emptied, fun t' next'' rest'' ei'' hl' => ?_, fun o hl' => ?_⟩
      · rw [hstep] at hl'
        cases hl'
        exact ⟨r, hr, hmem, hserial, ⟨db, hdb, hrdb⟩, hrest.trans heiF.symm⟩
      · rw [hstep] at hl'
        cases hl'

theorem Inv.deleteCache {s : Shared} (h : Inv sn block s)
    (hl : ∀ t next rest ei, s.lookup ≠ .copying t next rest ei) :
    Inv sn block s.deleteCache where
  loaded hc := nomatch hc
  emptied _ := rfl
  copying t next rest ei hc := absurd hc (hl t next rest ei)
  returned := h.returned

theorem Inv.fill {s : Shared} (h : Inv sn block s) (db : Database sn) (hc : s.cleared = true) :
    Inv sn block (s.fill db.recs) where
  loaded _ := by
    refine ⟨db, List.mem_append_right _ (List.mem_singleton_self _), ?_⟩
    rw [Shared.fill, h.emptied hc, List.nil_append]
    exact Heap.map_deref_newAddresses s.heap db.recs
  emptied hc' := nomatch hc'
  copying t next rest ei hl := by
    obtain ⟨r, _, hmem, _⟩ := h.copying t next rest ei hl
    rw [h.emptied hc] at hmem
    cases hmem
  returned o hl := by
    obtain ⟨ei, ho, db', hdb', hr⟩ := h.returned o hl
    exact ⟨ei, ho, db', List.mem_append_left _ hdb', hr⟩

theorem inv_step (s : Shared) (a : SharedLabel sn) (t : Shared) (h : Inv sn block s)
    (ha : KeepsApart sn s a) (hs : (lookups sn block).step s a = some t) : Inv sn block t := by
  cases a with
  | search =>
      simp only [lookups, Shared.step] at hs
      split at hs
      next => obtain rfl := Option.some.inj hs; exact h.search ha
      · cases hs
  | fetch =>
      simp only [lookups, Shared.step] at hs
      split at hs
      next i hl =>
        obtain rfl := Option.some.inj hs
        obtain ⟨p, r, hp, hr, hserial⟩ := ha i hl
        exact h.fetch hp hr hserial
      · cases hs
  | copy =>
      simp only [lookups, Shared.step] at hs
      split at hs
      next hl => obtain rfl := Option.some.inj hs; exact h.copy hl
      · cases hs
  | deleteCache =>
      simp only [lookups, Shared.step] at hs
      split at hs
      · cases hs
      · obtain rfl := Option.some.inj hs
        exact h.deleteCache ha
  | fill db =>
      simp only [lookups, Shared.step] at hs
      split at hs
      next hc => obtain rfl := Option.some.inj hs; exact h.fill db hc
      · cases hs

/-! ## Steps that do not -/

/-- The lookup has ended without a copy of a record with the number, or it copies from a
record that is deleted or has another number. -/
def Doomed (sn : Bytes) (block : Uninit) (s : Shared) : Prop :=
  match s.lookup with
  | .returned o => ∀ ei, o = .copied ei → cstring ei.serial_number.val ≠ some sn
  | .copying t next rest ei => ∃ r, s.heap.content t = some r ∧
      (s.heap.deref t = none ∨ cstring r.serial_number.val ≠ some sn) ∧
      Field.assignAll r (next :: rest) ei = copyRecord (EmployeeInfo.new block) r
  | .searching | .found _ => False

theorem doomed_undefined (s : Shared) :
    Doomed sn block { s with lookup := .returned .undefined } := fun _ h => nomatch h

theorem doomed_of_not_apart (s : Shared) (a : SharedLabel sn) (t : Shared) (h : Inv sn block s)
    (ha : ¬ KeepsApart sn s a) (hs : (lookups sn block).step s a = some t) :
    Doomed sn block t := by
  cases a with
  | search =>
      simp only [lookups, Shared.step] at hs
      split at hs
      next =>
        obtain rfl := Option.some.inj hs
        have hempty : s.m_vectorEmployeeInfo = [] := h.emptied (Bool.not_eq_false _ ▸ ha)
        have hmissing : s.search sn = .returned .missing := by rw [Shared.search, hempty]; rfl
        rw [hmissing]
        exact fun _ ho => nomatch ho
      · cases hs
  | fetch =>
      simp only [lookups, Shared.step] at hs
      split at hs
      next i hl =>
        obtain rfl := Option.some.inj hs
        cases ht : s.m_vectorEmployeeInfo[i]? with
        | none =>
            rw [Shared.fetch, ht]
            exact doomed_undefined s
        | some t =>
            obtain ⟨r, hr, _⟩ := h.deref_vector ht
            rw [Shared.fetch, ht]
            refine ⟨r, Heap.content_of_deref hr, .inr fun hserial => ha fun i' hl' => ?_,
              Field.assignAll_eq_copyRecord _ r⟩
            obtain rfl : i = i' := Lookup.found.inj (hl.symm.trans hl')
            exact ⟨t, r, ht, hr, hserial⟩
      · cases hs
  | copy => exact absurd trivial ha
  | deleteCache =>
      simp only [lookups, Shared.step] at hs
      split at hs
      · cases hs
      · obtain rfl := Option.some.inj hs
        simp only [KeepsApart, not_forall, ne_eq, not_not] at ha
        rcases ha with ⟨t, next, rest, ei, hl⟩
        obtain ⟨r, hr, hmem, _, _, hall⟩ := h.copying t next rest ei hl
        simp only [Doomed, Shared.deleteCache, hl, Heap.content_freeAll]
        exact ⟨r, Heap.content_of_deref hr, .inl (Heap.deref_freeAll_of_mem hmem), hall⟩
  | fill db => exact absurd trivial ha

/-- A copy that goes on from a doomed state ends in one. -/
theorem doomed_copy {s : Shared} {t : Nat} {next : Field} {rest : List Field} {ei : EmployeeInfo}
    (h : Doomed sn block s) (hl : s.lookup = .copying t next rest ei) :
    Doomed sn block { s with lookup := s.copy t next rest ei } := by
  simp only [Doomed, hl] at h
  rcases h with ⟨r, hcontent, hbad, hall⟩
  cases hd : (s.heap.deref t).bind fun r => next.assign r ei with
  | none =>
      rw [Shared.copy, hd]
      exact doomed_undefined s
  | some ei' =>
      obtain ⟨r', hr', hassign⟩ := Option.bind_eq_some_iff.mp hd
      obtain rfl : r = r' := Option.some.inj (hcontent.symm.trans (Heap.content_of_deref hr'))
      have hserial : cstring r.serial_number.val ≠ some sn := by
        rcases hbad with hnone | hne
        · rw [hnone] at hr'
          cases hr'
        · exact hne
      rw [Field.assignAll_cons, hassign, Option.bind_some] at hall
      rw [Shared.copy, hd]
      cases rest with
      | nil =>
          intro ei'' ho
          cases ho
          rw [(copyRecord_copyOf hall.symm).serial_number]
          exact hserial
      | cons next' rest' => exact ⟨r, hcontent, .inr hserial, hall⟩

theorem doomed_step (s : Shared) (a : SharedLabel sn) (t : Shared) (h : Doomed sn block s)
    (hs : (lookups sn block).step s a = some t) : Doomed sn block t := by
  cases a with
  | search =>
      simp only [lookups, Shared.step] at hs
      split at hs
      next hl => simp only [Doomed, hl] at h
      · cases hs
  | fetch =>
      simp only [lookups, Shared.step] at hs
      split at hs
      next i hl => simp only [Doomed, hl] at h
      · cases hs
  | copy =>
      simp only [lookups, Shared.step] at hs
      split at hs
      next hl => obtain rfl := Option.some.inj hs; exact doomed_copy h hl
      · cases hs
  | deleteCache =>
      simp only [lookups, Shared.step] at hs
      split at hs
      · cases hs
      · obtain rfl := Option.some.inj hs
        unfold Doomed at h ⊢
        simp only [Shared.deleteCache, Heap.content_freeAll]
        split at h
        · exact h
        · rcases h with ⟨r, hcontent, hbad, hall⟩
          exact ⟨r, hcontent, hbad.imp_left fun hn => Heap.deref_freeAll_of_none hn _, hall⟩
        · exact h
        · exact h
  | fill db =>
      simp only [lookups, Shared.step] at hs
      split at hs
      next hc =>
        obtain rfl := Option.some.inj hs
        unfold Doomed at h ⊢
        simp only [Shared.fill]
        split at h
        · exact h
        · rcases h with ⟨r, hcontent, hbad, hall⟩
          have hlt := Heap.lt_length_of_content hcontent
          rw [Heap.content_allocAll_old hlt, Heap.deref_allocAll_old hlt]
          exact ⟨r, hcontent, hbad, hall⟩
        · exact h
        · exact h
      · cases hs

end Invariant

/-- A lookup that has come to its end, through any order of its steps and those of the
refreshes, copied one record with the number exactly when every step kept the threads apart. -/
theorem lookup_correct_iff (sn : Bytes) (block : Uninit) (old : Database sn)
    (labels : List (SharedLabel sn)) (t : Shared)
    (hrun : (lookups sn block).run (Shared.start old) labels = some t)
    (hend : ∃ o, t.lookup = .returned o) :
    (lookups sn block).AllStates (LookupCorrect sn) (Shared.start old) labels ↔
      (lookups sn block).AllSteps (KeepsApart sn) (Shared.start old) labels := by
  refine Machine.allStates_iff_allSteps_of_final (D := Doomed sn block)
    (F := fun s => ∃ o, s.lookup = .returned o) (fun s h => h.returned) inv_step
    doomed_of_not_apart doomed_step ?_ (inv_start old) hrun hend
  rintro s hdoom ⟨o, ho⟩ hcorrect
  obtain ⟨ei, rfl, db, _, r, _, hserial, hcopy⟩ := hcorrect o ho
  simp only [Doomed, ho] at hdoom
  exact hdoom ei rfl (hcopy.serial_number.trans hserial)

/-! ## A lookup that no refresh interrupts -/

theorem run_copies {sn : Bytes} {block : Uninit} {t : Nat} {r eiF : EmployeeInfo}
    (rest : List Field) (next : Field) (ei : EmployeeInfo) (s : Shared)
    (hr : s.heap.deref t = some r) (hl : s.lookup = .copying t next rest ei)
    (hall : Field.assignAll r (next :: rest) ei = some eiF) :
    (lookups sn block).run s (List.replicate (rest.length + 1) .copy) =
      some { s with lookup := .returned (.copied eiF) } := by
  induction rest generalizing next ei s with
  | nil =>
      obtain ⟨ei', hassign, hrest⟩ := Option.bind_eq_some_iff.mp hall
      obtain rfl := Option.some.inj hrest
      simp only [lookups, List.length_nil, List.replicate_succ, List.replicate_zero,
        Machine.run_cons, Machine.run_nil, Shared.step, hl, Option.bind_some, Shared.copy, hr,
        hassign, Shared.advance]
  | cons next' rest ih =>
      obtain ⟨ei', hassign, hrest⟩ := Option.bind_eq_some_iff.mp hall
      have hstep : (lookups sn block).step s .copy =
          some { s with lookup := .copying t next' rest ei' } := by
        simp only [lookups, Shared.step, hl, Shared.copy, hr, Option.bind_some, hassign,
          Shared.advance]
      rw [List.length_cons, List.replicate_succ, Machine.run_cons, hstep, Option.bind_some]
      exact ih next' ei' { s with lookup := .copying t next' rest ei' } hr rfl hrest

/-- Then it returns what `getInfo` returns over the list. -/
theorem lookup_alone {sn : Bytes} (block : Uninit) (old : Database sn) :
    ∃ ei t, (lookups sn block).run (Shared.start old)
        (.search :: .fetch :: List.replicate 10 .copy) = some t ∧
      t.lookup = .returned (.copied ei) ∧
      localDB ⟨true, old.recs⟩ sn (EmployeeInfo.new block) = some (true, ei) := by
  rcases old.has with ⟨r, hr, hserial⟩
  obtain ⟨h0, hlen⟩ := length_lt_of_serial hserial
  obtain ⟨i, r, hi, hri, hserial, hdb⟩ := searchIndex_found h0 hlen old.has 0
  obtain ⟨ei, hei⟩ := copyRecord_terminated hserial (EmployeeInfo.new block)
  have hmap := Heap.map_deref_newAddresses [] old.recs
  have hsearch : (lookups sn block).step (Shared.start old) .search =
      some { Shared.start old with lookup := .found i } := by
    simp only [lookups, Shared.step, Shared.start, Shared.search, hmap, hi, Nat.zero_add]
  obtain ⟨p, hp, hpr⟩ : ∃ p, (Shared.start old).m_vectorEmployeeInfo[i]? = some p ∧
      (Shared.start old).heap.deref p = some r := by
    have hget : ((Heap.newAddresses [] old.recs).map
        (Heap.deref (Heap.allocAll [] old.recs)))[i]? = some (some r) := by
      rw [hmap, List.getElem?_map, hri, Option.map_some]
    rw [List.getElem?_map] at hget
    exact Option.map_eq_some_iff.mp hget
  have hfetch : (lookups sn block).step { Shared.start old with lookup := .found i } .fetch =
      some { Shared.start old with
        lookup := .copying p .serial_number Field.others (EmployeeInfo.new block) } := by
    simp only [lookups, Shared.step, Shared.fetch, hp]
  refine ⟨ei, { Shared.start old with lookup := .returned (.copied ei) }, ?_, rfl, ?_⟩
  · rw [Machine.run_cons, hsearch, Option.bind_some, Machine.run_cons, hfetch, Option.bind_some]
    refine run_copies Field.others .serial_number _ _ hpr rfl ?_
    rw [Field.assignAll_eq_copyRecord, hei]
  · simp only [localDB, hdb, hei, Option.bind_eq_bind, Option.bind_some]

/-! One employee, in the old database as in the new one. -/

def gateNumber : Bytes := ascii "253161024009"

def gateEmployee : EmployeeInfo :=
  { EmployeeInfo.new emptyBlock with
    serial_number := ⟨gateNumber ++ [0, 0, 0, 0], by decide⟩
    in_out_gb := ascii "0002"
    utype := 82 }

def gateDatabase : Database gateNumber := ⟨[gateEmployee], gateEmployee, by simp, by decide⟩

theorem lookup_correct_iff_alone :
    ∃ t, (lookups gateNumber emptyBlock).run (Shared.start gateDatabase)
        (.search :: .fetch :: List.replicate 10 .copy) = some t ∧
      ((lookups gateNumber emptyBlock).AllStates (LookupCorrect gateNumber)
          (Shared.start gateDatabase) (.search :: .fetch :: List.replicate 10 .copy) ↔
        (lookups gateNumber emptyBlock).AllSteps (KeepsApart gateNumber)
          (Shared.start gateDatabase) (.search :: .fetch :: List.replicate 10 .copy)) := by
  obtain ⟨ei, t, hrun, hret, _⟩ := lookup_alone emptyBlock gateDatabase
  exact ⟨t, hrun, lookup_correct_iff gateNumber emptyBlock gateDatabase _ t hrun ⟨_, hret⟩⟩

/-- Searched between the deletion and the filling, the list has no employee at all. -/
theorem lookup_misses_cleared_list :
    ¬ (lookups gateNumber emptyBlock).AllStates (LookupCorrect gateNumber)
      (Shared.start gateDatabase) [.deleteCache, .search, .fill gateDatabase] := by
  intro h
  obtain ⟨ei, hmissing, _⟩ := h.last rfl .missing rfl
  cases hmissing

end Acu.Employee
