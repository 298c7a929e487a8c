import Acu.Delegator.Validate
import Acu.Employee.Document

/-!
# The same record from the server and from the database

`getInfo` fills the record from a reply, or finds it in the list and copies it. The
two parsers look for different elements, and agree on those they share.
-/

namespace Acu.Delegator

open Acu.Core Acu.Core.CMemory Tools Employee EmployeeInfoMgr Web

/-! ## Replies -/

/-- A reply that holds one record: no element stands behind it. -/
structure Reply where
  gap : Bytes
  layout : Layout Tag.moving
  row : Row
  last : Bytes
  gap_text : 0 ∉ gap
  gap_free : ¬ 60 :: ascii "Table" <:+: gap
  last_filler : Filler (reserved Tag.moving) last

def Reply.text (r : Reply) : Bytes :=
  r.gap ++ (r.row.text r.layout ++ (ascii "</Table>" ++ r.last))

/-- The elements a reply is read from, by their tags. -/
def readOnline (m_bDisplayPhoto : Bool) (t : Tag) : Bool :=
  decide (t ≠ .RFID_CAR) && (decide (t ≠ .PHOTO_IMAGE) || m_bDisplayPhoto)

theorem onlineTags_eq (m_bDisplayPhoto : Bool) :
    Tag.moving.filter (readOnline m_bDisplayPhoto) = onlineTags m_bDisplayPhoto := by
  cases m_bDisplayPhoto <;> decide

/-- A photograph is read from whole groups of characters that index the table of the decoder. -/
def PhotoReadable (signedChar : Bool) (row : Row) : Prop :=
  ∀ v, row.value .PHOTO_IMAGE = some v → Readable signedChar .PHOTO_IMAGE v

/-- The record a reply is read into. -/
def onlineInfo (signedChar m_bDisplayPhoto : Bool) (row : Row) (ei : EmployeeInfo) : EmployeeInfo :=
  ei.assignAll signedChar row.value (onlineTags m_bDisplayPhoto ++ [.UTYPE])

/-- A reply is found to hold its record, and all of it is read. -/
theorem fillEmployeeInfo_reply (signedChar m_bDisplayPhoto : Bool) (r : Reply) (tail : Bytes)
    (ei : EmployeeInfo) (hphoto : PhotoReadable signedChar r.row) :
    fillEmployeeInfo signedChar m_bDisplayPhoto (r.text ++ 0 :: tail) ei =
      some (true, onlineInfo signedChar m_bDisplayPhoto r.row ei) := by
  have hmem : r.text ++ 0 :: tail =
      r.gap ++ (r.row.text r.layout ++ (ascii "</Table>" ++ r.last ++ 0 :: tail)) := by
    simp [Reply.text]
  have hopen : strstr (r.text ++ 0 :: tail) 0 (ascii "<Table") = some (some r.gap.length) := by
    have h := strstr_table r.row r.layout [] r.gap_text r.gap_free
      (ascii "</Table>" ++ r.last ++ 0 :: tail)
    rwa [← hmem, List.nil_append, List.length_nil, Nat.zero_add] at h
  have hread (t : Tag) (v : Bytes) (_ : readOnline m_bDisplayPhoto t = true)
      (hv : r.row.value t = some v) : Readable signedChar t v := by
    by_cases hp : t = .PHOTO_IMAGE
    · subst hp
      exact hphoto v hv
    · exact r.row.readable signedChar hv hp
  have hclosing : Passed (Tag.moving.filter (readOnline m_bDisplayPhoto))
      (ascii "</Table>" ++ r.last) := by
    have hend : Passed (Tag.moving.filter (readOnline m_bDisplayPhoto)) (ascii "</Table>") := by
      refine Filler.tag (s := ascii "/Table") ⟨by decide, by decide⟩ fun name hn => ?_
      obtain ⟨t, -, rfl⟩ := List.mem_map.mp hn
      exact t.not_prefix_end _
    refine hend.append (r.last_filler.mono (names_subset_reserved ?_))
    exact List.subset_append_of_subset_left _ List.filter_sublist.subset
  obtain ⟨pre', p, hrow⟩ := read_row signedChar r.row r.layout
    (readOnline m_bDisplayPhoto) List.filter_sublist.subset hread r.gap
    (ascii "</Table>" ++ r.last) tail ei hclosing
  rw [onlineTags_eq, ← hmem] at hrow
  rw [fillEmployeeInfo_eq, hopen]
  simp only [hrow, Option.bind_some]
  rfl

/-! ## Agreement -/

/-- The members that are shown and decided on. -/
structure Agree (a b : EmployeeInfo) : Prop where
  in_out_gb : a.in_out_gb = b.in_out_gb
  utype : a.utype = b.utype
  zone_code : a.zone_code = b.zone_code
  ent_co_ymd : a.ent_co_ymd = b.ent_co_ymd
  rtr_co_ymd : a.rtr_co_ymd = b.rtr_co_ymd
  lab_no : a.lab_no = b.lab_no
  lab_name : a.lab_name = b.lab_name
  company_name : a.company_name = b.company_name
  pin_no : a.pin_no = b.pin_no

theorem Agree.checkValidate {a b : EmployeeInfo} (h : Agree a b) (cfg : Settings) (today : Date) :
    checkValidate cfg today a = checkValidate cfg today b :=
  checkValidate_congr h.in_out_gb (fun _ => h.utype) h.zone_code h.ent_co_ymd h.rtr_co_ymd

/-- What is read online and what is copied offline come from the same elements. -/
theorem agree_of_copy {signedChar m_bDisplayPhoto : Bool} {row : Row} {block new old : Uninit}
    {off : EmployeeInfo} (h : copyRecord (EmployeeInfo.new new) (row.info block) = some off) :
    Agree (onlineInfo signedChar m_bDisplayPhoto row (EmployeeInfo.new old)) off := by
  obtain ⟨s, hs, h⟩ := Option.bind_eq_some_iff.mp h
  cases h
  have hutype (b : UInt8) : ((row.value .UTYPE).bind List.head?).getD b =
      ((row.value .UTYPE).bind List.head?).getD block.utype := by
    rcases row.kind with ⟨v, hv, hne⟩
    cases v with
    | nil => exact absurd rfl hne
    | cons c v =>
        rw [hv]
        rfl
  cases m_bDisplayPhoto <;>
    exact ⟨rfl, hutype old.utype, rfl, Option.or_none.symm, Option.or_none.symm, rfl, rfl, rfl, rfl⟩

/-- The list that was filled from a database finds its only record with the number. -/
theorem searchDB_only (blocks : Nat → Uninit) {before : List Row} (after : List Row) {row : Row}
    {sn : Bytes} (hsn : row.value .RFID_CAR = some sn)
    (honly : ∀ other ∈ before, other.value .RFID_CAR ≠ some sn) :
    searchDB sn (Row.infos blocks 0 (before ++ row :: after)) =
      some (some (row.info (blocks before.length))) := by
  have hcarried := row.info_carries (blocks before.length)
  have hserial : cstring (row.info (blocks before.length)).serial_number.val = some sn := by
    rw [hcarried.serial_number, hsn]
  obtain ⟨h0, hlen⟩ := length_lt_of_serial hserial
  have hbefore : (Row.infos blocks 0 before).find?
      (fun t => decide (cstring t.serial_number.val = some sn)) = none := by
    rw [List.find?_eq_none]
    intro ei hei
    obtain ⟨other, hother, hc⟩ := Row.mem_infos hei
    have hne := honly other hother
    rw [← hc.serial_number] at hne
    simpa using hne
  rw [searchDB_eq_find h0 hlen, Row.infos_append, List.find?_append, hbefore, Nat.zero_add,
    Option.none_or, Row.infos, List.find?_cons_of_pos (by simpa using hserial)]

/-- A record that the server sends and the same record in the database, the only one there with
its number, give the same employee, and the same decision on every day. -/
theorem online_offline_agree (signedChar : Bool) (r : Reply) (doc : Document)
    (before after : List Row) (hrows : doc.rows = before ++ r.row :: after) {sn : Bytes}
    (hsn : r.row.value .RFID_CAR = some sn)
    (honly : ∀ other ∈ before ++ after, other.value .RFID_CAR ≠ some sn)
    (hphoto : PhotoReadable signedChar r.row) (online offline : Employee.Config)
    (hon : online.m_bUseLocalDB = false) (reply : Except WebExcept (Option Bytes))
    (hoff : offline.m_bUseLocalDB = true ∨ ∃ e, reply = .error e)
    (tail tail' : Bytes) (blocks : Nat → Uninit) (block block' : Uninit)
    (mgr mgr' : EmployeeInfoMgr) (bServerActive bServerActive' : Int)
    (hmgr : fillEmployeeInfoes blocks (doc.text ++ 0 :: tail) [] =
      some mgr.m_vectorEmployeeInfo) :
    ∃ on off active active',
      getInfo signedChar online mgr' sn (.ok (some (r.text ++ 0 :: tail')))
          (EmployeeInfo.new block) bServerActive = some (true, on, active) ∧
        getInfo signedChar offline mgr sn reply (EmployeeInfo.new block') bServerActive' =
          some (true, off, active') ∧
        Agree on off ∧ ∀ cfg today, checkValidate cfg today on = checkValidate cfg today off := by
  have hlist : mgr.m_vectorEmployeeInfo = Row.infos blocks 0 (before ++ r.row :: after) := by
    rw [fillEmployeeInfoes_text, List.nil_append, hrows] at hmgr
    exact (Option.some.inj hmgr).symm
  have hfound := searchDB_only blocks after hsn fun other hother =>
    honly other (List.mem_append_left _ hother)
  rw [← hlist] at hfound
  have hserial : cstring (r.row.info (blocks before.length)).serial_number.val = some sn := by
    rw [(r.row.info_carries _).serial_number, hsn]
  obtain ⟨off, hcopy⟩ := copyRecord_terminated hserial (EmployeeInfo.new block')
  have hlocal : mgr.localDB sn (EmployeeInfo.new block') = some (true, off) := by
    rw [localDB, hfound]
    simp [hcopy]
  have hagree : Agree (onlineInfo signedChar online.m_bDisplayPhoto r.row (EmployeeInfo.new block))
      off := agree_of_copy hcopy
  have honline := fillEmployeeInfo_reply signedChar online.m_bDisplayPhoto r tail'
    (EmployeeInfo.new block) hphoto
  refine ⟨_, off, 1, if offline.m_bUseLocalDB then bServerActive' else 0, ?_, ?_, hagree,
    hagree.checkValidate⟩
  · rw [getInfo, hon]
    simp [honline]
  · cases hoff with
    | inl hlocalDB => simp [getInfo, hlocalDB, hlocal]
    | inr herror =>
        rcases herror with ⟨e, rfl⟩
        cases hcase : offline.m_bUseLocalDB <;> simp [getInfo, hcase, hlocal]

/-! A worker with a photograph, laid out with another element before each of those that are
read. -/

def age : FlatElement := ⟨ascii "AGE", [], ascii "30"⟩

theorem age_reserved (tags : List Tag) : Filler (reserved tags) (10 :: age.text) := by
  have hformed : age.Formed :=
    ⟨⟨by decide, by decide⟩, ⟨by decide, by decide⟩, ⟨by decide, by decide⟩, fun d hd => by
      cases hd⟩
  have hage : Filler (reserved tags) age.text :=
    reserved_flat hformed (fun t _ => by cases t <;> decide) (by decide) (by decide)
  exact reserved_append (s := [10]) (.of_plain ⟨by decide, by decide⟩ _) hage

def agedLayout (tags : List Tag) : Layout tags where
  attributes := []
  before := fun _ => 10 :: age.text
  last := []
  attributes_plain := ⟨by decide, by decide⟩
  before_filler := fun _ => age_reserved tags
  last_filler := Filler.nil _

def worker : Row where
  value
    | .RFID_CAR => some (ascii "253161024009")
    | .IN_OUT_GB => some (ascii "0002")
    | .PHOTO_IMAGE => some (ascii "/9j/")
    | .UTYPE => some (ascii "R")
    | _ => none
  plain := by
    intro t v hv
    cases t <;> cases hv <;> exact ⟨by decide, by decide⟩
  card := ⟨_, rfl, by decide⟩
  kind := ⟨_, rfl, by decide⟩
  dates := by
    rintro t v (rfl | rfl) hv <;> cases hv

def workerReply : Reply :=
  ⟨[], agedLayout _, worker, [], by decide, by decide, Filler.nil _⟩

def workerDocument : Document :=
  ⟨[⟨[], agedLayout _, worker, by decide, by decide⟩], [], by decide, by decide⟩

theorem online_offline_agree_worker :
    ∃ on off active active',
      getInfo true ⟨false, [], [], true, []⟩ ⟨true, []⟩ (ascii "253161024009")
          (.ok (some (workerReply.text ++ 0 :: []))) (EmployeeInfo.new emptyBlock) 0 =
        some (true, on, active) ∧
      getInfo true ⟨true, [], [], false, []⟩
          ⟨true, Row.infos (fun _ => emptyBlock) 0 [worker]⟩ (ascii "253161024009") (.ok none)
          (EmployeeInfo.new emptyBlock) 0 = some (true, off, active') ∧
      Agree on off ∧ ∀ cfg today, checkValidate cfg today on = checkValidate cfg today off :=
  online_offline_agree true workerReply workerDocument [] [] rfl rfl (fun _ h => by cases h)
    (fun v hv => by cases hv; exact ⟨by decide, fun _ => by decide +kernel⟩)
    ⟨false, [], [], true, []⟩
    ⟨true, [], [], false, []⟩ rfl (.ok none) (.inl rfl) [] [] (fun _ => emptyBlock) emptyBlock
    emptyBlock ⟨true, Row.infos (fun _ => emptyBlock) 0 [worker]⟩ ⟨true, []⟩ 0 0
    (fillEmployeeInfoes_text (fun _ => emptyBlock) workerDocument [] [])

end Acu.Delegator
