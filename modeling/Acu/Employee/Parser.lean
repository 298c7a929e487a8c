import Acu.Tools.Date
import Acu.Tools.Utils
import Acu.Tools.Base64

/-!
# Employee records and their parsers

A reply or database file is parsed in place: every element that is found is cut
off by a NUL and the cursor moves past the cut, while a missing element leaves
the cursor where it was. The members that the constructor does not initialise
keep what the allocator left in the block.
-/

namespace Acu.Employee

open Acu.Core Acu.Core.CMemory Tools

/-! ## Records -/

/-- What a fresh block holds in the members the constructor leaves alone. -/
structure Uninit where
  serial_number : CharArray 16
  utype : UInt8
  img_size : Int
  deriving DecidableEq

def emptyBlock : Uninit := ⟨⟨List.replicate 16 0, rfl⟩, 0, 0⟩

structure EmployeeInfo where
  serial_number : CharArray 16
  in_out_gb : Bytes
  utype : UInt8
  ent_co_ymd : Option Date
  rtr_co_ymd : Option Date
  zone_code : Bytes
  company_name : Bytes
  lab_no : Bytes
  lab_name : Bytes
  pin_no : Bytes
  img_buf : Option Bytes
  img_size : Int
  deriving DecidableEq

/-- `EmployeeInfo()`. -/
def EmployeeInfo.new (block : Uninit) : EmployeeInfo where
  serial_number := block.serial_number
  in_out_gb := []
  utype := block.utype
  ent_co_ymd := none
  rtr_co_ymd := none
  zone_code := []
  company_name := []
  lab_no := []
  lab_name := []
  pin_no := []
  img_buf := none
  img_size := block.img_size

/-! ## Elements -/

/-- The text, the moving pointer `p` into it and the record being filled. -/
structure Cursor where
  mem : Bytes
  p : Nat
  ei : EmployeeInfo

namespace Cursor

/-- One `try { ... p = getElementData(p, tag) ... } catch(int e){}` block: `use` is what is
done with the element found at the pointer, before `p` moves past its cut. -/
def element (tag : String) (use : Bytes → Nat → EmployeeInfo → Option EmployeeInfo)
    (c : Cursor) : Option Cursor := do
  match ← getElementData c.mem c.p (ascii tag) with
  | (mem, none) => some { c with mem := mem }
  | (mem, some p) =>
      let ei ← use mem p c.ei
      let len ← strlen mem p
      some ⟨mem, p + len + 1, ei⟩

/-- `ei->member = p = getElementData(p, tag)` into a `std::string`. -/
def text (tag : String) (assign : Bytes → EmployeeInfo → EmployeeInfo) (c : Cursor) :
    Option Cursor :=
  c.element tag fun mem p ei => do
    let s ← stringAt mem p
    some (assign s ei)

/-- `ei->member = new Date(p = getElementData(p, tag))`. -/
def date (tag : String) (assign : Date → EmployeeInfo → EmployeeInfo) (c : Cursor) :
    Option Cursor :=
  c.element tag fun mem p ei => do
    let d ← Date.ofText mem p
    some (assign d ei)

/-- The first element: `p` is not assigned, and moves past the cut from where it stood. -/
def pinNo (c : Cursor) : Option Cursor := do
  match ← getElementData c.mem c.p (ascii "PIN_NO") with
  | (mem, none) => some { c with mem := mem }
  | (mem, some q) =>
      let s ← stringAt mem q
      let len ← strlen mem c.p
      some ⟨mem, c.p + len + 1, { c.ei with pin_no := s }⟩

def labNo : Cursor → Option Cursor := text "LAB_NO" fun s ei => { ei with lab_no := s }

def labName : Cursor → Option Cursor := text "LAB_NM" fun s ei => { ei with lab_name := s }

def companyName : Cursor → Option Cursor := text "CO_NM" fun s ei => { ei with company_name := s }

/-- At most fifteen bytes are copied, so the last byte of the array is never written. -/
def serialNumber : Cursor → Option Cursor :=
  element "RFID_CAR" fun mem p ei => do
    let s ← stringAt mem p
    some { ei with serial_number := strncpy ei.serial_number s 15 (by decide) }

def inOutGb : Cursor → Option Cursor := text "IN_OUT_GB" fun s ei => { ei with in_out_gb := s }

def zoneCode : Cursor → Option Cursor := text "ZONE_CD" fun s ei => { ei with zone_code := s }

def entCoYmd : Cursor → Option Cursor :=
  date "ENT_CO_YMD" fun d ei => { ei with ent_co_ymd := some d }

def rtrCoYmd : Cursor → Option Cursor :=
  date "RTR_CO_YMD" fun d ei => { ei with rtr_co_ymd := some d }

/-- `*utils::getElementData(p, "UTYPE")`; the pointer is not moved. -/
def utype (c : Cursor) : Option Cursor := do
  match ← getElementData c.mem c.p (ascii "UTYPE") with
  | (mem, none) => some { c with mem := mem }
  | (mem, some q) =>
      let b ← mem[q]?
      some { c with mem := mem, ei := { c.ei with utype := b } }

def photoImage (signedChar : Bool) : Cursor → Option Cursor :=
  element "PHOTO_IMAGE" fun mem p ei => do
    let length ← strlen mem p
    let (img, size) ← Base64.base64d signedChar mem p length length
    some { ei with img_buf := some img, img_size := size }

end Cursor

/-! ## Parsers -/

/-- The body of the `while` loop between the cut at `end` and `push_back`. -/
def fillRecord (c : Cursor) : Option Cursor := do
  let c ← c.pinNo
  let c ← c.labNo
  let c ← c.labName
  let c ← c.companyName
  let c ← c.serialNumber
  let c ← c.inOutGb
  let c ← c.zoneCode
  let c ← c.entCoYmd
  let c ← c.rtrCoYmd
  c.utype

/-- `while(p = strstr(p, "<Table"))`; the `i`-th record is built in the block `blocks i`. -/
def fillLoop (blocks : Nat → Uninit) : Nat → Bytes → Nat → List EmployeeInfo →
    Option (List EmployeeInfo)
  | 0, _, _, _ => none
  | fuel + 1, m, p, elems => do
      match ← strstr m p (ascii "<Table") with
      | none => some elems
      | some p =>
          let close ← strstr m (p + 7) (ascii "</Table")
          -- without an end tag the NUL is written through a null pointer
          let stop ← close
          let m ← store m stop 0
          let c ← fillRecord ⟨m, p, EmployeeInfo.new (blocks elems.length)⟩
          fillLoop blocks fuel c.mem (stop + 8) (elems ++ [c.ei])

/-- `fillEmployeeInfoes(xml_buf, elems)` over the memory `m` behind `xml_buf`. -/
def fillEmployeeInfoes (blocks : Nat → Uninit) (m : Bytes) (elems : List EmployeeInfo) :
    Option (List EmployeeInfo) :=
  fillLoop blocks (m.length + 1) m 0 elems

/-- `fillEmployeeInfo(xml_buf, ei)`: false when the reply holds no record. -/
def fillEmployeeInfo (signedChar m_bDisplayPhoto : Bool) (m : Bytes) (ei : EmployeeInfo) :
    Option (Bool × EmployeeInfo) := do
  match ← strstr m 0 (ascii "<Table") with
  | none => some (false, ei)
  | some p =>
      let c ← Cursor.pinNo ⟨m, p, ei⟩
      let c ← c.labNo
      let c ← c.labName
      let c ← c.companyName
      let c ← c.inOutGb
      let c ← c.zoneCode
      let c ← if m_bDisplayPhoto then c.photoImage signedChar else some c
      let c ← c.entCoYmd
      let c ← c.rtrCoYmd
      let c ← c.utype
      some (true, c.ei)

/-! ## The cuts keep the memory's size, and the parser's loop ends by itself -/

namespace Cursor

/-- What a step does to the text and to the record: `getElementData` cuts the text, and `use`
takes over the element it finds. -/
inductive Reads (tag : String) (use : Bytes → Nat → EmployeeInfo → Option EmployeeInfo)
    (c d : Cursor) : Prop where
  | missing (hget : getElementData c.mem c.p (ascii tag) = some (d.mem, none)) (hei : d.ei = c.ei)
  | found (q : Nat) (hget : getElementData c.mem c.p (ascii tag) = some (d.mem, some q))
      (huse : use d.mem q c.ei = some d.ei)

theorem element_reads {tag : String} {use : Bytes → Nat → EmployeeInfo → Option EmployeeInfo}
    {c d : Cursor} (h : element tag use c = some d) : Reads tag use c d := by
  unfold element at h
  obtain ⟨⟨mem, r⟩, hget, h⟩ := Option.bind_eq_some_iff.mp h
  cases r with
  | none =>
      cases h
      exact .missing hget rfl
  | some q =>
      obtain ⟨ei, hei, h⟩ := Option.bind_eq_some_iff.mp h
      obtain ⟨len, -, h⟩ := Option.bind_eq_some_iff.mp h
      cases h
      exact .found q hget hei

theorem pinNo_reads {c d : Cursor} (h : pinNo c = some d) :
    Reads "PIN_NO" (fun mem q ei => (stringAt mem q).map fun s => { ei with pin_no := s }) c d := by
  unfold pinNo at h
  obtain ⟨⟨mem, r⟩, hget, h⟩ := Option.bind_eq_some_iff.mp h
  cases r with
  | none =>
      cases h
      exact .missing hget rfl
  | some q =>
      obtain ⟨s, hs, h⟩ := Option.bind_eq_some_iff.mp h
      obtain ⟨len, -, h⟩ := Option.bind_eq_some_iff.mp h
      cases h
      exact .found q hget (by rw [hs]; rfl)

theorem utype_reads {c d : Cursor} (h : utype c = some d) :
    Reads "UTYPE" (fun mem q ei => mem[q]?.map fun b => { ei with utype := b }) c d := by
  unfold utype at h
  obtain ⟨⟨mem, r⟩, hget, h⟩ := Option.bind_eq_some_iff.mp h
  cases r with
  | none =>
      cases h
      exact .missing hget rfl
  | some q =>
      obtain ⟨b, hb, h⟩ := Option.bind_eq_some_iff.mp h
      cases h
      exact .found q hget (by rw [hb]; rfl)

theorem Reads.length {tag : String} {use : Bytes → Nat → EmployeeInfo → Option EmployeeInfo}
    {c d : Cursor} (h : Reads tag use c d) : d.mem.length = c.mem.length := by
  cases h with
  | missing hget => exact getElementData_length hget
  | found q hget => exact getElementData_length hget

def KeepsSize (f : Cursor → Option Cursor) : Prop :=
  ∀ c c', f c = some c' → c'.mem.length = c.mem.length

theorem KeepsSize.bind {f g : Cursor → Option Cursor} (hf : KeepsSize f) (hg : KeepsSize g) :
    KeepsSize fun c => f c >>= g := by
  intro c c' h
  obtain ⟨c₁, h₁, h₂⟩ := Option.bind_eq_some_iff.mp h
  rw [hg c₁ c' h₂, hf c c₁ h₁]

theorem element_keepsSize (tag : String) (use : Bytes → Nat → EmployeeInfo → Option EmployeeInfo) :
    KeepsSize (element tag use) := fun _ _ h => (element_reads h).length

theorem text_keepsSize (tag : String) (assign : Bytes → EmployeeInfo → EmployeeInfo) :
    KeepsSize (text tag assign) := element_keepsSize tag _

theorem date_keepsSize (tag : String) (assign : Date → EmployeeInfo → EmployeeInfo) :
    KeepsSize (date tag assign) := element_keepsSize tag _

theorem pinNo_keepsSize : KeepsSize pinNo := fun _ _ h => (pinNo_reads h).length

theorem utype_keepsSize : KeepsSize utype := fun _ _ h => (utype_reads h).length

end Cursor

open Cursor in
theorem fillRecord_keepsSize : KeepsSize fillRecord := by
  have h₁ : KeepsSize labNo := text_keepsSize _ _
  have h₂ : KeepsSize labName := text_keepsSize _ _
  have h₃ : KeepsSize companyName := text_keepsSize _ _
  have h₄ : KeepsSize serialNumber := element_keepsSize _ _
  have h₅ : KeepsSize inOutGb := text_keepsSize _ _
  have h₆ : KeepsSize zoneCode := text_keepsSize _ _
  have h₇ : KeepsSize entCoYmd := date_keepsSize _ _
  have h₈ : KeepsSize rtrCoYmd := date_keepsSize _ _
  exact pinNo_keepsSize.bind (h₁.bind (h₂.bind (h₃.bind (h₄.bind (h₅.bind (h₆.bind
    (h₇.bind (h₈.bind utype_keepsSize))))))))

/-- Each round moves the cursor on by at least fifteen bytes inside the memory, so any fuel
beyond the bytes that are left gives the same result. -/
theorem fillLoop_fuel (blocks : Nat → Uninit) (f₁ f₂ : Nat) (m : Bytes) (p : Nat)
    (elems : List EmployeeInfo) (h₁ : m.length < f₁ + p) (h₂ : m.length < f₂ + p)
    (hf₁ : 0 < f₁) (hf₂ : 0 < f₂) :
    fillLoop blocks f₁ m p elems = fillLoop blocks f₂ m p elems := by
  induction f₁ generalizing f₂ m p elems with
  | zero => omega
  | succ f₁ ih =>
      cases f₂ with
      | zero => omega
      | succ f₂ =>
          simp only [fillLoop]
          refine Option.bind_congr fun found hfound => ?_
          cases found with
          | none => rfl
          | some q =>
              refine Option.bind_congr fun close hclose => ?_
              refine Option.bind_congr fun stop hstop => ?_
              refine Option.bind_congr fun m' hm => ?_
              refine Option.bind_congr fun c hc => ?_
              subst hstop
              have hq := strstr_bounds hfound
              have hs := strstr_bounds hclose
              have hlen : c.mem.length = m.length := by
                rw [fillRecord_keepsSize _ _ hc]
                exact store_length hm
              exact ih f₂ c.mem (stop + 8) _ (by omega) (by omega) (by omega) (by omega)

/-- A found record is never dropped again: the parser's list only grows. -/
theorem fillLoop_prefix (blocks : Nat → Uninit) (fuel : Nat) (m : Bytes) (p : Nat)
    (elems out : List EmployeeInfo) (h : fillLoop blocks fuel m p elems = some out) :
    elems <+: out := by
  induction fuel generalizing m p elems with
  | zero => cases h
  | succ fuel ih =>
      simp only [fillLoop] at h
      obtain ⟨found, _, h⟩ := Option.bind_eq_some_iff.mp h
      cases found with
      | none => cases h; exact List.prefix_rfl
      | some q =>
          obtain ⟨close, _, h⟩ := Option.bind_eq_some_iff.mp h
          obtain ⟨stop, _, h⟩ := Option.bind_eq_some_iff.mp h
          obtain ⟨m', _, h⟩ := Option.bind_eq_some_iff.mp h
          obtain ⟨c, _, h⟩ := Option.bind_eq_some_iff.mp h
          exact (List.prefix_append elems [c.ei]).trans (ih c.mem (stop + 8) _ h)

/-- `"<Table"` does not occur in the text before its first NUL. -/
def NoTable (text : Bytes) : Prop := strstr (text ++ [0]) 0 (ascii "<Table") = some none

instance (text : Bytes) : Decidable (NoTable text) := inferInstanceAs (Decidable (_ = _))

/-- A text without a record, ended by a NUL, parses to the empty list. -/
theorem fillEmployeeInfoes_of_noTable {text : Bytes} (h : NoTable text)
    (blocks : Nat → Uninit) : fillEmployeeInfoes blocks (text ++ [0]) [] = some [] := by
  simp only [fillEmployeeInfoes, fillLoop]
  rw [show strstr (text ++ [0]) 0 (ascii "<Table") = some none from h]
  rfl

/-- A text with a record start never parses to the empty list, whatever follows it. -/
theorem fillEmployeeInfoes_ne_nil {text : Bytes} (h : ¬ NoTable text) (rest : Bytes)
    (blocks : Nat → Uninit) : fillEmployeeInfoes blocks (text ++ rest) [] ≠ some [] := by
  rcases strstr_nul_cases text (ascii "<Table") with hn | ⟨q, hq⟩
  · exact absurd hn h
  obtain ⟨q', hq'⟩ := strstr_found (by decide) (by decide) hq rest
  intro hnil
  simp only [fillEmployeeInfoes, fillLoop] at hnil
  obtain ⟨found, hfound, hnil⟩ := Option.bind_eq_some_iff.mp hnil
  rw [hq', Option.some.injEq] at hfound
  subst hfound
  obtain ⟨close, _, hnil⟩ := Option.bind_eq_some_iff.mp hnil
  obtain ⟨stop, _, hnil⟩ := Option.bind_eq_some_iff.mp hnil
  obtain ⟨m', _, hnil⟩ := Option.bind_eq_some_iff.mp hnil
  obtain ⟨c, _, hnil⟩ := Option.bind_eq_some_iff.mp hnil
  have hp := fillLoop_prefix _ _ _ _ _ _ hnil
  simp at hp

end Acu.Employee
