import Acu.Employee.Parser

/-!
# The elements of a record

Each step of the parsers is about one element: it finds the element behind a text
that does not hold its tag, assigns the value and moves behind the cut; where the
element is missing it leaves everything as it is.
-/

namespace Acu.Employee

open Acu.Core Acu.Core.CMemory Tools

/-- The elements the parsers look for, in the order in which they do. -/
inductive Tag where
  | PIN_NO
  | LAB_NO
  | LAB_NM
  | CO_NM
  | RFID_CAR
  | IN_OUT_GB
  | ZONE_CD
  | PHOTO_IMAGE
  | ENT_CO_YMD
  | RTR_CO_YMD
  | UTYPE
  deriving DecidableEq, Repr

namespace Tag

def text : Tag → String
  | PIN_NO => "PIN_NO"
  | LAB_NO => "LAB_NO"
  | LAB_NM => "LAB_NM"
  | CO_NM => "CO_NM"
  | RFID_CAR => "RFID_CAR"
  | IN_OUT_GB => "IN_OUT_GB"
  | ZONE_CD => "ZONE_CD"
  | PHOTO_IMAGE => "PHOTO_IMAGE"
  | ENT_CO_YMD => "ENT_CO_YMD"
  | RTR_CO_YMD => "RTR_CO_YMD"
  | UTYPE => "UTYPE"

def name (t : Tag) : Bytes := ascii t.text

/-- The elements before the last one. -/
def moving : List Tag :=
  [PIN_NO, LAB_NO, LAB_NM, CO_NM, RFID_CAR, IN_OUT_GB, ZONE_CD, PHOTO_IMAGE, ENT_CO_YMD,
    RTR_CO_YMD]

theorem name_plain (t : Tag) : Plain t.name := by
  cases t <;> exact ⟨by decide, by decide⟩

theorem name_nameLike (t : Tag) : NameLike t.name := by
  cases t <;> decide

/-- No name begins with another, nor is it that of an end tag or of a record. -/
theorem not_prefix_name {t u : Tag} (h : t ≠ u) : ¬ t.name <+: u.name := by
  cases t <;> cases u <;> first | exact absurd rfl h | decide

theorem not_prefix_end (t : Tag) (s : Bytes) : ¬ t.name <+: 47 :: s := by
  intro h
  cases t <;> cases (List.cons_prefix_cons.mp h).1

theorem not_prefix_table (t : Tag) (s : Bytes) : ¬ t.name <+: 84 :: s := by
  intro h
  cases t <;> cases (List.cons_prefix_cons.mp h).1

end Tag

/-! ## Steps -/

/-- The step of the parsers for an element. -/
def Cursor.read (signedChar : Bool) : Tag → Cursor → Option Cursor
  | .PIN_NO => Cursor.pinNo
  | .LAB_NO => Cursor.labNo
  | .LAB_NM => Cursor.labName
  | .CO_NM => Cursor.companyName
  | .RFID_CAR => Cursor.serialNumber
  | .IN_OUT_GB => Cursor.inOutGb
  | .ZONE_CD => Cursor.zoneCode
  | .PHOTO_IMAGE => Cursor.photoImage signedChar
  | .ENT_CO_YMD => Cursor.entCoYmd
  | .RTR_CO_YMD => Cursor.rtrCoYmd
  | .UTYPE => Cursor.utype

def Cursor.readAll (signedChar : Bool) : List Tag → Cursor → Option Cursor
  | [], c => some c
  | t :: ts, c => do
      let c ← c.read signedChar t
      Cursor.readAll signedChar ts c

/-- The date in an eight-digit text. -/
def dateOf (v : Bytes) : Date :=
  ⟨atoi (v.take 4), atoi ((v.drop 4).take 2), atoi ((v.drop 6).take 2)⟩

/-- The bytes and the size a photograph is decoded to. -/
def photoOf (signedChar : Bool) (v : Bytes) : Bytes × Int :=
  (Base64.base64d signedChar v 0 v.length v.length).getD ([], 0)

/-- The field of the card number takes the bytes that `strncpy` writes. -/
theorem serial_fits : 15 ≤ 16 := by decide

/-- What becomes of a record at an element, which may be missing. -/
def EmployeeInfo.assign (signedChar : Bool) (ei : EmployeeInfo) : Tag → Option Bytes → EmployeeInfo
  | .PIN_NO, v => { ei with pin_no := v.getD ei.pin_no }
  | .LAB_NO, v => { ei with lab_no := v.getD ei.lab_no }
  | .LAB_NM, v => { ei with lab_name := v.getD ei.lab_name }
  | .CO_NM, v => { ei with company_name := v.getD ei.company_name }
  | .RFID_CAR, v =>
      { ei with serial_number := v.elim ei.serial_number fun s =>
          strncpy ei.serial_number s 15 serial_fits }
  | .IN_OUT_GB, v => { ei with in_out_gb := v.getD ei.in_out_gb }
  | .ZONE_CD, v => { ei with zone_code := v.getD ei.zone_code }
  | .PHOTO_IMAGE, v =>
      { ei with
        img_buf := (v.map fun s => (photoOf signedChar s).1).or ei.img_buf
        img_size := v.elim ei.img_size fun s => (photoOf signedChar s).2 }
  | .ENT_CO_YMD, v => { ei with ent_co_ymd := (v.map dateOf).or ei.ent_co_ymd }
  | .RTR_CO_YMD, v => { ei with rtr_co_ymd := (v.map dateOf).or ei.rtr_co_ymd }
  | .UTYPE, v => { ei with utype := (v.bind List.head?).getD ei.utype }

def EmployeeInfo.assignAll (signedChar : Bool) (value : Tag → Option Bytes) (ei : EmployeeInfo)
    (tags : List Tag) : EmployeeInfo :=
  tags.foldl (fun ei t => ei.assign signedChar t (value t)) ei

theorem EmployeeInfo.assign_none (signedChar : Bool) (ei : EmployeeInfo) (t : Tag) :
    ei.assign signedChar t none = ei := by
  cases t <;> rfl

theorem EmployeeInfo.assignAll_cons (signedChar : Bool) (value : Tag → Option Bytes)
    (ei : EmployeeInfo) (t : Tag) (ts : List Tag) :
    ei.assignAll signedChar value (t :: ts) =
      (ei.assign signedChar t (value t)).assignAll signedChar value ts := rfl

theorem EmployeeInfo.assignAll_append (signedChar : Bool) (value : Tag → Option Bytes)
    (ei : EmployeeInfo) (ts us : List Tag) :
    ei.assignAll signedChar value (ts ++ us) =
      (ei.assignAll signedChar value ts).assignAll signedChar value us :=
  List.foldl_append

/-- The elements a record of the database is read from. -/
def offlineTags : List Tag :=
  [.PIN_NO, .LAB_NO, .LAB_NM, .CO_NM, .RFID_CAR, .IN_OUT_GB, .ZONE_CD, .ENT_CO_YMD, .RTR_CO_YMD]

/-- The elements a reply is read from. -/
def onlineTags (m_bDisplayPhoto : Bool) : List Tag :=
  [.PIN_NO, .LAB_NO, .LAB_NM, .CO_NM, .IN_OUT_GB, .ZONE_CD] ++
    (if m_bDisplayPhoto then [.PHOTO_IMAGE] else []) ++ [.ENT_CO_YMD, .RTR_CO_YMD]

theorem fillRecord_eq (signedChar : Bool) (c : Cursor) :
    fillRecord c = (Cursor.readAll signedChar offlineTags c).bind Cursor.utype := by
  simp [fillRecord, Cursor.readAll, Cursor.read, offlineTags, Option.bind_assoc]

theorem fillEmployeeInfo_eq (signedChar m_bDisplayPhoto : Bool) (m : Bytes) (ei : EmployeeInfo) :
    fillEmployeeInfo signedChar m_bDisplayPhoto m ei =
      match strstr m 0 (ascii "<Table") with
      | none => none
      | some none => some (false, ei)
      | some (some p) =>
          ((Cursor.readAll signedChar (onlineTags m_bDisplayPhoto) ⟨m, p, ei⟩).bind
            Cursor.utype).bind fun c => some (true, c.ei) := by
  unfold fillEmployeeInfo
  cases strstr m 0 (ascii "<Table") with
  | none => rfl
  | some found =>
      cases found with
      | none => rfl
      | some p =>
          cases m_bDisplayPhoto <;>
            simp [Cursor.readAll, Cursor.read, onlineTags, Option.bind_assoc]

/-! ## A tag that can be cut, or is absent -/

/-- How far the pointer is moved. The length of the first element is taken from where the pointer
stood, and ends at the skipped letter if that is a NUL. -/
def advance (t : Tag) (s : Bytes) (b : UInt8) (v : Bytes) : Nat :=
  match t with
  | .PIN_NO =>
      if b = 0 then s.length + t.name.length + 2 else s.length + t.name.length + v.length + 3
  | .UTYPE => 0
  | _ => s.length + t.name.length + v.length + 3

namespace Cursor

section Cut

variable {m s v rest : Bytes} {b : UInt8}

/-- The value is used, and the pointer is set behind its NUL. -/
theorem element_cut (pre : Bytes) {tag : String}
    (use : Bytes → Nat → EmployeeInfo → Option EmployeeInfo) (ei : EmployeeInfo)
    (h : Cut (ascii tag) m s b v rest) :
    element tag use ⟨pre ++ m, pre.length, ei⟩ =
      (use (front pre s (ascii tag) b ++ (v ++ 0 :: rest)) (front pre s (ascii tag) b).length
        ei).map fun ei' => ⟨front pre s (ascii tag) b ++ (v ++ 0 :: rest),
          (front pre s (ascii tag) b).length + v.length + 1, ei'⟩ := by
  have hstrlen := strlen_append (front pre s (ascii tag) b) h.value.2 rest
  rw [element, getElementData_cut pre h, Option.bind_eq_bind, Option.bind_some]
  dsimp only
  rw [hstrlen]
  cases use (front pre s (ascii tag) b ++ (v ++ 0 :: rest)) (front pre s (ascii tag) b).length ei
    with
  | none => rfl
  | some ei' => rfl

/-- The string from where the pointer stood ends at the cut, unless the skipped letter is a NUL. -/
theorem strlen_cut (pre : Bytes) (h : Cut (ascii "PIN_NO") m s b v rest) :
    (strlen (front pre s (ascii "PIN_NO") b ++ (v ++ 0 :: rest)) pre.length).map (· + 1) =
      some (advance .PIN_NO s b v) := by
  have hname : 0 ∉ ascii "PIN_NO" := by decide
  have hmark : 0 ∉ s ++ 60 :: ascii "PIN_NO" := by
    rw [List.mem_append, List.mem_cons, not_or, not_or]
    exact ⟨h.text, by decide, hname⟩
  have hlength : (s ++ 60 :: ascii "PIN_NO").length = s.length + Tag.PIN_NO.name.length + 1 := by
    rw [List.length_append, List.length_cons]
    rfl
  by_cases hb : b = 0
  · have hstrlen := strlen_append pre hmark (v ++ 0 :: rest)
    have hsame : pre ++ ((s ++ 60 :: ascii "PIN_NO") ++ 0 :: (v ++ 0 :: rest)) =
        front pre s (ascii "PIN_NO") b ++ (v ++ 0 :: rest) := by
      simp [front, hb]
    rw [hsame] at hstrlen
    rw [hstrlen, Option.map_some, hlength, advance, if_pos hb]
  · have hvalue : 0 ∉ (s ++ 60 :: ascii "PIN_NO") ++ b :: v := by
      rw [List.mem_append, List.mem_cons, not_or, not_or]
      exact ⟨hmark, Ne.symm hb, h.value.2⟩
    have hstrlen := strlen_append pre hvalue rest
    have hsame : pre ++ ((s ++ 60 :: ascii "PIN_NO") ++ b :: v ++ 0 :: rest) =
        front pre s (ascii "PIN_NO") b ++ (v ++ 0 :: rest) := by
      simp [front]
    rw [hsame] at hstrlen
    rw [hstrlen, Option.map_some, List.length_append, hlength, List.length_cons, advance,
      if_neg hb]
    congr 1
    omega

theorem pinNo_cut (pre : Bytes) (ei : EmployeeInfo) (h : Cut (ascii "PIN_NO") m s b v rest) :
    pinNo ⟨pre ++ m, pre.length, ei⟩ =
      some ⟨front pre s (ascii "PIN_NO") b ++ (v ++ 0 :: rest),
        pre.length + advance .PIN_NO s b v, { ei with pin_no := v }⟩ := by
  obtain ⟨len, hlen, hnext⟩ := Option.map_eq_some_iff.mp (strlen_cut pre h)
  have hstring := stringAt_append (front pre s (ascii "PIN_NO") b) h.value.2 rest
  rw [pinNo, getElementData_cut pre h, Option.bind_eq_bind, Option.bind_some]
  dsimp only
  rw [hstring, hlen, ← hnext]
  rfl

/-- The type is the first letter of the value; without one it is the NUL of the cut. -/
theorem utype_cut (pre : Bytes) (ei : EmployeeInfo) (h : Cut (ascii "UTYPE") m s b v rest) :
    utype ⟨pre ++ m, pre.length, ei⟩ =
      some ⟨front pre s (ascii "UTYPE") b ++ (v ++ 0 :: rest), pre.length,
        { ei with utype := v.head?.getD 0 }⟩ := by
  have hbyte : (front pre s (ascii "UTYPE") b ++
      (v ++ 0 :: rest))[(front pre s (ascii "UTYPE") b).length]? = some (v.head?.getD 0) := by
    rw [List.getElem?_append_right (Nat.le_refl _), Nat.sub_self]
    cases v with
    | nil => rfl
    | cons d v => rfl
  rw [utype, getElementData_cut pre h, Option.bind_eq_bind, Option.bind_some]
  dsimp only
  rw [hbyte]
  rfl

end Cut

end Cursor

/-! ## An element that is there -/

/-- What the step for an element needs of its value. -/
def Readable (signedChar : Bool) : Tag → Bytes → Prop
  | .ENT_CO_YMD, v | .RTR_CO_YMD, v => v.length = 8
  | .PHOTO_IMAGE, v => 4 ∣ v.length ∧ (signedChar = true → ∀ c ∈ v, c < 128)
  | .UTYPE, v => v ≠ []
  | _, _ => True

namespace Cursor

section Found

variable {signedChar : Bool} {s v rest : Bytes} {ei ei' : EmployeeInfo}

theorem element_found (pre : Bytes) (tag : String)
    {use : Bytes → Nat → EmployeeInfo → Option EmployeeInfo} (htag : 60 ∉ ascii tag) (h0 : 0 ∉ s)
    (hs : ¬ 60 :: ascii tag <:+: s) (hv : Plain v)
    (huse : ∀ pre', use (pre' ++ (v ++ 0 :: rest)) pre'.length ei = some ei') :
    ∃ pre', element tag use
        ⟨pre ++ (s ++ 60 :: (ascii tag ++ 62 :: (v ++ 60 :: rest))), pre.length, ei⟩ =
      some ⟨pre' ++ rest, pre'.length, ei'⟩ := by
  refine ⟨front pre s (ascii tag) 62 ++ (v ++ [0]), ?_⟩
  rw [element_cut pre use ei (Cut.of_mark h0 hs htag hv 62 rest), huse]
  simp [Nat.add_assoc]

theorem text_found (pre : Bytes) (tag : String) (assign : Bytes → EmployeeInfo → EmployeeInfo)
    (htag : 60 ∉ ascii tag) (h0 : 0 ∉ s) (hs : ¬ 60 :: ascii tag <:+: s) (hv : Plain v) :
    ∃ pre', text tag assign
        ⟨pre ++ (s ++ 60 :: (ascii tag ++ 62 :: (v ++ 60 :: rest))), pre.length, ei⟩ =
      some ⟨pre' ++ rest, pre'.length, assign v ei⟩ := by
  refine element_found pre tag htag h0 hs hv fun pre' => ?_
  rw [stringAt_append pre' hv.2]
  rfl

theorem ofText_append (pre : Bytes) (hv : v.length = 8) :
    Date.ofText (pre ++ (v ++ rest)) pre.length = some (dateOf v) := by
  have hyear : load (pre ++ (v ++ rest)) pre.length 4 = some (v.take 4) :=
    load_behind pre rest (k := 0) (by omega)
  have hmonth : load (pre ++ (v ++ rest)) (pre.length + 4) 2 = some ((v.drop 4).take 2) :=
    load_behind pre rest (by omega)
  have hday : load (pre ++ (v ++ rest)) (pre.length + 6) 2 = some ((v.drop 6).take 2) :=
    load_behind pre rest (by omega)
  rw [Date.ofText, hyear, hmonth, hday]
  rfl

theorem date_found (pre : Bytes) (tag : String) (assign : Date → EmployeeInfo → EmployeeInfo)
    (htag : 60 ∉ ascii tag) (h0 : 0 ∉ s) (hs : ¬ 60 :: ascii tag <:+: s) (hv : Plain v)
    (h8 : v.length = 8) :
    ∃ pre', date tag assign
        ⟨pre ++ (s ++ 60 :: (ascii tag ++ 62 :: (v ++ 60 :: rest))), pre.length, ei⟩ =
      some ⟨pre' ++ rest, pre'.length, assign (dateOf v) ei⟩ := by
  refine element_found pre tag htag h0 hs hv fun pre' => ?_
  rw [ofText_append pre' h8]
  rfl

theorem pinNo_found (pre : Bytes) (h0 : 0 ∉ s) (hs : ¬ 60 :: ascii "PIN_NO" <:+: s)
    (hv : Plain v) :
    ∃ pre', pinNo ⟨pre ++ (s ++ 60 :: (ascii "PIN_NO" ++ 62 :: (v ++ 60 :: rest))), pre.length,
        ei⟩ = some ⟨pre' ++ rest, pre'.length, { ei with pin_no := v }⟩ := by
  refine ⟨front pre s (ascii "PIN_NO") 62 ++ (v ++ [0]), ?_⟩
  rw [pinNo_cut pre ei (Cut.of_mark h0 hs (by decide) hv 62 rest), advance, if_neg (by decide)]
  have hend : pre.length + (s.length + Tag.PIN_NO.name.length + v.length + 3) =
      (front pre s (ascii "PIN_NO") 62 ++ (v ++ [0])).length := by
    rw [List.length_append, List.length_append, front_length, List.length_singleton, Tag.name]
    dsimp only [Tag.text]
    omega
  rw [hend]
  simp

theorem serialNumber_found (pre : Bytes) (h0 : 0 ∉ s) (hs : ¬ 60 :: ascii "RFID_CAR" <:+: s)
    (hv : Plain v) :
    ∃ pre', serialNumber
        ⟨pre ++ (s ++ 60 :: (ascii "RFID_CAR" ++ 62 :: (v ++ 60 :: rest))), pre.length, ei⟩ =
      some ⟨pre' ++ rest, pre'.length, ei.assign signedChar .RFID_CAR (some v)⟩ := by
  unfold serialNumber
  refine element_found pre "RFID_CAR" (by decide) h0 hs hv fun pre' => ?_
  rw [stringAt_append pre' hv.2]
  rfl

theorem photoImage_found (pre : Bytes) (h0 : 0 ∉ s) (hs : ¬ 60 :: ascii "PHOTO_IMAGE" <:+: s)
    (hv : Plain v) (h4 : 4 ∣ v.length) (hchar : signedChar = true → ∀ c ∈ v, c < 128) :
    ∃ pre', photoImage signedChar
        ⟨pre ++ (s ++ 60 :: (ascii "PHOTO_IMAGE" ++ 62 :: (v ++ 60 :: rest))), pre.length, ei⟩ =
      some ⟨pre' ++ rest, pre'.length, ei.assign signedChar .PHOTO_IMAGE (some v)⟩ := by
  obtain ⟨⟨img, size⟩, hphoto⟩ := Base64.base64d_isSome hchar h4
  unfold photoImage
  refine element_found pre "PHOTO_IMAGE" (by decide) h0 hs hv fun pre' => ?_
  have hdecoded := Base64.base64d_behind signedChar pre' (0 :: rest) v.length h4
  rw [strlen_append pre' hv.2 rest, Option.bind_eq_bind, Option.bind_some, hdecoded, hphoto]
  simp [EmployeeInfo.assign, photoOf, hphoto]

/-- The step for an element that is found assigns the value and moves behind the cut. -/
theorem read_found (signedChar : Bool) (ei : EmployeeInfo) {t : Tag} (ht : t ≠ .UTYPE)
    (pre rest : Bytes) (h0 : 0 ∉ s) (hs : ¬ 60 :: t.name <:+: s) (hv : Plain v)
    (hr : Readable signedChar t v) :
    ∃ pre', read signedChar t
        ⟨pre ++ (s ++ 60 :: (t.name ++ 62 :: (v ++ 60 :: rest))), pre.length, ei⟩ =
      some ⟨pre' ++ rest, pre'.length, ei.assign signedChar t (some v)⟩ := by
  cases t with
  | PIN_NO => exact pinNo_found pre h0 hs hv
  | LAB_NO =>
      exact text_found pre "LAB_NO" (fun s ei => { ei with lab_no := s }) (by decide) h0 hs hv
  | LAB_NM =>
      exact text_found pre "LAB_NM" (fun s ei => { ei with lab_name := s }) (by decide) h0 hs hv
  | CO_NM =>
      exact text_found pre "CO_NM" (fun s ei => { ei with company_name := s }) (by decide) h0 hs hv
  | IN_OUT_GB =>
      exact text_found pre "IN_OUT_GB" (fun s ei => { ei with in_out_gb := s }) (by decide) h0 hs hv
  | ZONE_CD =>
      exact text_found pre "ZONE_CD" (fun s ei => { ei with zone_code := s }) (by decide) h0 hs hv
  | ENT_CO_YMD =>
      exact date_found pre "ENT_CO_YMD" (fun d ei => { ei with ent_co_ymd := some d }) (by decide)
        h0 hs hv hr
  | RTR_CO_YMD =>
      exact date_found pre "RTR_CO_YMD" (fun d ei => { ei with rtr_co_ymd := some d }) (by decide)
        h0 hs hv hr
  | RFID_CAR => exact serialNumber_found pre h0 hs hv
  | PHOTO_IMAGE => exact photoImage_found pre h0 hs hv hr.1 hr.2
  | UTYPE => exact absurd rfl ht

/-- The last step leaves the pointer where it was. -/
theorem utype_found (signedChar : Bool) (ei : EmployeeInfo) (pre rest : Bytes) (h0 : 0 ∉ s)
    (hs : ¬ 60 :: Tag.UTYPE.name <:+: s) (hv : Plain v) (hne : v ≠ []) :
    ∃ pre' p, utype
        ⟨pre ++ (s ++ 60 :: (Tag.UTYPE.name ++ 62 :: (v ++ 60 :: rest))), pre.length, ei⟩ =
      some ⟨pre' ++ rest, p, ei.assign signedChar .UTYPE (some v)⟩ := by
  have hcut := Cut.of_mark h0 hs (Tag.name_plain .UTYPE).1 hv 62 rest
  refine ⟨front pre s Tag.UTYPE.name 62 ++ (v ++ [0]), pre.length, ?_⟩
  rw [utype_cut pre ei hcut]
  cases v with
  | nil => exact absurd rfl hne
  | cons d v => simp [EmployeeInfo.assign, Tag.name, Tag.text]

/-- The step for an element that is missing changes nothing. -/
theorem read_missing (signedChar : Bool) (ei : EmployeeInfo) (t : Tag) (pre rest : Bytes)
    (h0 : 0 ∉ s) (hs : ¬ 60 :: t.name <:+: s) :
    read signedChar t ⟨pre ++ (s ++ 0 :: rest), pre.length, ei⟩ =
      some ⟨pre ++ (s ++ 0 :: rest), pre.length, ei⟩ := by
  have hmissing := getElementData_missing pre rest h0 hs (Tag.name_plain t).2
  cases t <;>
    simp only [read, pinNo, labNo, labName, companyName, serialNumber, inOutGb, zoneCode,
      photoImage, entCoYmd, rtrCoYmd, utype, text, date, element, Tag.name,
      Tag.text] at hmissing ⊢ <;>
    rw [hmissing] <;> rfl

end Found

end Cursor

end Acu.Employee
