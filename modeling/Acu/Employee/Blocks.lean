import Acu.Employee.Elements

/-!
# Records in blocks that were not cleared

The constructor leaves the card number, the type and the size of the picture as the
block held them. The parsers read the same elements whatever that was, so a record
is what its text gives, and the block where the text gives nothing.
-/

namespace Acu.Employee

open Acu.Core Acu.Core.CMemory Tools

/-- The record without the members that the constructor leaves alone. -/
def EmployeeInfo.forget (ei : EmployeeInfo) : EmployeeInfo :=
  { ei with
    serial_number := emptyBlock.serial_number
    utype := emptyBlock.utype
    img_size := emptyBlock.img_size }

namespace Cursor

def forget (c : Cursor) : Cursor := { c with ei := c.ei.forget }

/-- A step that does not depend on the members the constructor leaves alone. -/
def Blind (f : Cursor → Option Cursor) : Prop :=
  ∀ c, (f c).map forget = (f c.forget).map forget

section Blind

variable {f g : Cursor → Option Cursor}

/-- Two cursors that differ in those members only are moved alike. -/
theorem Blind.cases (hf : Blind f) {c d : Cursor} (h : c.forget = d.forget) :
    (f c = none ∧ f d = none) ∨
      ∃ c' d', f c = some c' ∧ f d = some d' ∧ c'.forget = d'.forget := by
  have heq : (f c).map forget = (f d).map forget := by rw [hf c, h, ← hf d]
  cases hc : f c with
  | none =>
      cases hd : f d with
      | none => exact .inl ⟨rfl, rfl⟩
      | some d' =>
          rw [hc, hd] at heq
          cases heq
  | some c' =>
      cases hd : f d with
      | none =>
          rw [hc, hd] at heq
          cases heq
      | some d' =>
          rw [hc, hd] at heq
          exact .inr ⟨c', d', rfl, rfl, Option.some.inj heq⟩

theorem Blind.bind (hf : Blind f) (hg : Blind g) : Blind fun c => (f c).bind g := by
  intro c
  obtain ⟨hc, hd⟩ | ⟨c', d', hc, hd, heq⟩ := hf.cases (c := c) (d := c.forget) rfl
  · simp [hc, hd]
  · simp only [hc, hd, Option.bind_some]
    rw [hg c', heq, ← hg d']

/-- A step that reads the text alike, and then does not depend on them. -/
theorem Blind.of_get (tag : String) {k : Cursor → Bytes × Option Nat → Option Cursor}
    (hk : ∀ c r, (k c r).map forget = (k c.forget r).map forget) :
    Blind fun c => (getElementData c.mem c.p (ascii tag)).bind (k c) := by
  intro c
  have hforget : c.forget.mem = c.mem ∧ c.forget.p = c.p := ⟨rfl, rfl⟩
  simp only [hforget]
  cases getElementData c.mem c.p (ascii tag) with
  | none => rfl
  | some r => exact hk c r

theorem element_blind (tag : String) {use : Bytes → Nat → EmployeeInfo → Option EmployeeInfo}
    (huse : ∀ mem p ei, (use mem p ei).map EmployeeInfo.forget =
      (use mem p ei.forget).map EmployeeInfo.forget) : Blind (element tag use) := by
  refine Blind.of_get tag fun c r => ?_
  rcases r with ⟨mem, q⟩
  cases q with
  | none => rfl
  | some q =>
      have hcut (o : Option EmployeeInfo) :
          (o.bind fun ei => (strlen mem q).bind fun len => some ⟨mem, q + len + 1, ei⟩).map forget =
            (o.map EmployeeInfo.forget).bind fun ei =>
              (strlen mem q).map fun len => ⟨mem, q + len + 1, ei⟩ := by
        cases o with
        | none => rfl
        | some ei => cases strlen mem q <;> rfl
      simp only [Option.bind_eq_bind]
      rw [hcut, hcut, huse mem q c.ei]
      rfl

theorem text_blind (tag : String) {assign : Bytes → EmployeeInfo → EmployeeInfo}
    (hassign : ∀ s ei, (assign s ei).forget = (assign s ei.forget).forget) :
    Blind (text tag assign) := by
  refine element_blind tag fun mem p ei => ?_
  cases stringAt mem p with
  | none => rfl
  | some s => exact congrArg some (hassign s ei)

theorem date_blind (tag : String) {assign : Date → EmployeeInfo → EmployeeInfo}
    (hassign : ∀ d ei, (assign d ei).forget = (assign d ei.forget).forget) :
    Blind (date tag assign) := by
  refine element_blind tag fun mem p ei => ?_
  cases Date.ofText mem p with
  | none => rfl
  | some d => exact congrArg some (hassign d ei)

theorem pinNo_blind : Blind pinNo := by
  refine Blind.of_get "PIN_NO" fun c r => ?_
  rcases r with ⟨mem, q⟩
  cases q with
  | none => rfl
  | some q =>
      have hp : c.forget.p = c.p := rfl
      simp only [Option.bind_eq_bind, hp]
      cases stringAt mem q with
      | none => rfl
      | some s => cases strlen mem c.p <;> rfl

theorem utype_blind : Blind utype := by
  refine Blind.of_get "UTYPE" fun c r => ?_
  rcases r with ⟨mem, q⟩
  cases q with
  | none => rfl
  | some q =>
      simp only [Option.bind_eq_bind]
      cases mem[q]? <;> rfl

theorem photoImage_blind (signedChar : Bool) : Blind (photoImage signedChar) := by
  refine element_blind "PHOTO_IMAGE" fun mem p ei => ?_
  cases strlen mem p with
  | none => rfl
  | some length =>
      simp only [Option.bind_eq_bind, Option.bind_some]
      cases Base64.base64d signedChar mem p length length <;> rfl

theorem serialNumber_blind : Blind serialNumber := by
  refine element_blind "RFID_CAR" fun mem p ei => ?_
  cases stringAt mem p <;> rfl

theorem read_blind (signedChar : Bool) (t : Tag) : Blind (read signedChar t) := by
  cases t with
  | PIN_NO => exact pinNo_blind
  | RFID_CAR => exact serialNumber_blind
  | PHOTO_IMAGE => exact photoImage_blind signedChar
  | UTYPE => exact utype_blind
  | ENT_CO_YMD | RTR_CO_YMD =>
      simp only [read, entCoYmd, rtrCoYmd]
      exact date_blind _ fun _ _ => rfl
  | LAB_NO | LAB_NM | CO_NM | IN_OUT_GB | ZONE_CD =>
      simp only [read, labNo, labName, companyName, inOutGb, zoneCode]
      exact text_blind _ fun _ _ => rfl

theorem readAll_blind (signedChar : Bool) (ts : List Tag) : Blind (readAll signedChar ts) := by
  induction ts with
  | nil => exact fun c => rfl
  | cons t ts ih => exact (read_blind signedChar t).bind ih

end Blind

/-! ## The members the constructor leaves alone -/

/-- A step leaves something of the record as it was. -/
def Keeps {β : Type} (proj : EmployeeInfo → β) (f : Cursor → Option Cursor) : Prop :=
  ∀ c d, f c = some d → proj d.ei = proj c.ei

section Keeps

variable {β γ : Type} {proj : EmployeeInfo → β} {f g : Cursor → Option Cursor}

theorem Keeps.of (h : Keeps proj f) (k : β → γ) : Keeps (fun ei => k (proj ei)) f :=
  fun c d hcd => congrArg k (h c d hcd)

theorem Keeps.bind (hf : Keeps proj f) (hg : Keeps proj g) : Keeps proj fun c => (f c).bind g := by
  intro c d h
  obtain ⟨c', hc, hd⟩ := Option.bind_eq_some_iff.mp h
  rw [hg c' d hd, hf c c' hc]

theorem Reads.keeps {tag : String} {use : Bytes → Nat → EmployeeInfo → Option EmployeeInfo}
    {c d : Cursor} (h : Reads tag use c d)
    (huse : ∀ mem p ei ei', use mem p ei = some ei' → proj ei' = proj ei) :
    proj d.ei = proj c.ei := by
  cases h with
  | missing _ hei => rw [hei]
  | found q _ hq => exact huse d.mem q c.ei d.ei hq

theorem element_keeps (tag : String) {use : Bytes → Nat → EmployeeInfo → Option EmployeeInfo}
    (huse : ∀ mem p ei ei', use mem p ei = some ei' → proj ei' = proj ei) :
    Keeps proj (element tag use) := fun _ _ h => (element_reads h).keeps huse

theorem text_keeps (tag : String) {assign : Bytes → EmployeeInfo → EmployeeInfo}
    (hassign : ∀ s ei, proj (assign s ei) = proj ei) : Keeps proj (text tag assign) := by
  refine element_keeps tag fun mem p ei ei' h => ?_
  obtain ⟨s, -, h⟩ := Option.bind_eq_some_iff.mp h
  cases h
  exact hassign s ei

theorem date_keeps (tag : String) {assign : Date → EmployeeInfo → EmployeeInfo}
    (hassign : ∀ d ei, proj (assign d ei) = proj ei) : Keeps proj (date tag assign) := by
  refine element_keeps tag fun mem p ei ei' h => ?_
  obtain ⟨d, -, h⟩ := Option.bind_eq_some_iff.mp h
  cases h
  exact hassign d ei

theorem pinNo_keeps (hassign : ∀ s ei, proj { ei with pin_no := s } = proj ei) :
    Keeps proj pinNo := by
  intro c d h
  refine (pinNo_reads h).keeps fun mem p ei ei' huse => ?_
  obtain ⟨s, -, rfl⟩ := Option.map_eq_some_iff.mp huse
  exact hassign s ei

end Keeps

/-- The three members the constructor leaves alone. -/
def rest (ei : EmployeeInfo) : CharArray 16 × UInt8 × Int :=
  (ei.serial_number, ei.utype, ei.img_size)

/-- The elements whose values go elsewhere. -/
def plainTags : List Tag :=
  [.PIN_NO, .LAB_NO, .LAB_NM, .CO_NM, .IN_OUT_GB, .ZONE_CD, .ENT_CO_YMD, .RTR_CO_YMD]

theorem read_keeps_rest (signedChar : Bool) {t : Tag} (ht : t ∈ plainTags) :
    Keeps rest (read signedChar t) := by
  cases t with
  | PIN_NO => exact pinNo_keeps fun _ _ => rfl
  | ENT_CO_YMD | RTR_CO_YMD =>
      simp only [read, entCoYmd, rtrCoYmd]
      exact date_keeps _ fun _ _ => rfl
  | LAB_NO | LAB_NM | CO_NM | IN_OUT_GB | ZONE_CD =>
      simp only [read, labNo, labName, companyName, inOutGb, zoneCode]
      exact text_keeps _ fun _ _ => rfl
  | RFID_CAR | PHOTO_IMAGE | UTYPE => simp [plainTags] at ht

theorem photoImage_keeps_utype (signedChar : Bool) :
    Keeps EmployeeInfo.utype (photoImage signedChar) := by
  refine element_keeps "PHOTO_IMAGE" fun mem p ei ei' h => ?_
  obtain ⟨length, -, h⟩ := Option.bind_eq_some_iff.mp h
  obtain ⟨r, -, h⟩ := Option.bind_eq_some_iff.mp h
  cases h
  rfl

theorem readAll_keeps {β : Type} {proj : EmployeeInfo → β} (signedChar : Bool) {ts : List Tag}
    (h : ∀ t ∈ ts, Keeps proj (read signedChar t)) : Keeps proj (readAll signedChar ts) := by
  induction ts with
  | nil =>
      intro c d hcd
      cases hcd
      rfl
  | cons t ts ih =>
      exact (h t List.mem_cons_self).bind (ih fun u hu => h u (List.mem_cons_of_mem _ hu))

/-! ## What the text gives -/

/-- The text of an element that is found at the cursor. -/
def found (tag : String) (c : Cursor) : Option Bytes :=
  match getElementData c.mem c.p (ascii tag) with
  | some (mem, some q) => stringAt mem q
  | _ => none

/-- The byte that `UTYPE` gives at the cursor. -/
def utypeFound (c : Cursor) : Option UInt8 :=
  match getElementData c.mem c.p (ascii "UTYPE") with
  | some (mem, some q) => mem[q]?
  | _ => none

theorem serialNumber_some {c d : Cursor} (h : serialNumber c = some d) :
    d.ei.serial_number = (c.found "RFID_CAR").elim c.ei.serial_number
        (fun s => strncpy c.ei.serial_number s 15 serial_fits) ∧
      d.ei.utype = c.ei.utype ∧ d.ei.img_size = c.ei.img_size := by
  cases element_reads h with
  | missing hget hei => simp [found, hget, hei]
  | found q hget huse =>
      obtain ⟨s, hs, hei⟩ := Option.bind_eq_some_iff.mp huse
      simp [found, hget, hs, ← Option.some.inj hei]

theorem utype_some {c d : Cursor} (h : utype c = some d) :
    d.ei = { c.ei with utype := c.utypeFound.getD c.ei.utype } := by
  cases utype_reads h with
  | missing hget hei => simp [utypeFound, hget, hei]
  | found q hget huse =>
      obtain ⟨b, hb, hei⟩ := Option.map_eq_some_iff.mp huse
      simp [utypeFound, hget, hb, ← hei]

theorem read_keeps_utype (signedChar : Bool) {t : Tag} (ht : t ≠ .UTYPE) :
    Keeps EmployeeInfo.utype (read signedChar t) := by
  cases t with
  | RFID_CAR => exact fun c d h => (serialNumber_some h).2.1
  | PHOTO_IMAGE => exact photoImage_keeps_utype signedChar
  | UTYPE => exact absurd rfl ht
  | _ => exact (read_keeps_rest signedChar (by decide)).of fun r => r.2.1

end Cursor

/-! ## Records -/

section Records

variable (m : Bytes) (p : Nat) (block : Uninit)

/-- The text of the card number of the record at `p`. -/
def serialOf : Option Bytes :=
  (Cursor.readAll false [.PIN_NO, .LAB_NO, .LAB_NM, .CO_NM]
    ⟨m, p, EmployeeInfo.new emptyBlock⟩).bind (Cursor.found "RFID_CAR")

/-- The byte of the type of the record at `p`, where `tags` are read before it. -/
def utypeOf (signedChar : Bool) (tags : List Tag) : Option UInt8 :=
  (Cursor.readAll signedChar tags ⟨m, p, EmployeeInfo.new emptyBlock⟩).bind Cursor.utypeFound

theorem serialOf_text {s : Bytes} (h : serialOf m p = some s) : 0 ∉ s := by
  obtain ⟨c, -, h⟩ := Option.bind_eq_some_iff.mp h
  unfold Cursor.found at h
  split at h
  · exact (cstring_eq_some h).1
  · cases h

end Records

/-- A record in a block, of whose members the text gives what it gives. -/
def EmployeeInfo.place (ei : EmployeeInfo) (serial : Option Bytes) (utype : Option UInt8)
    (block : Uninit) : EmployeeInfo :=
  { ei with
    serial_number := serial.elim block.serial_number fun s =>
      strncpy block.serial_number s 15 serial_fits
    utype := utype.getD block.utype
    img_size := block.img_size }

theorem EmployeeInfo.eq_of_forget {a b : EmployeeInfo} (h : a.forget = b.forget) :
    a = { b with
      serial_number := a.serial_number
      utype := a.utype
      img_size := a.img_size } := by
  cases a
  cases b
  simp only [EmployeeInfo.forget, EmployeeInfo.mk.injEq] at h ⊢
  tauto

theorem Cursor.readAll_append (signedChar : Bool) (ts us : List Tag) (c : Cursor) :
    Cursor.readAll signedChar (ts ++ us) c =
      (Cursor.readAll signedChar ts c).bind (Cursor.readAll signedChar us) := by
  induction ts generalizing c with
  | nil => rfl
  | cons t ts ih => simp [Cursor.readAll, ih, Option.bind_assoc]

theorem Cursor.forget_parts {c d : Cursor} (h : c.forget = d.forget) :
    c.mem = d.mem ∧ c.p = d.p ∧ c.ei.forget = d.ei.forget := by
  simpa [Cursor.forget] using h

/-- Two cursors that differ in the record only find the same. -/
theorem Cursor.found_eq {c d : Cursor} (h : c.forget = d.forget) (tag : String) :
    c.found tag = d.found tag ∧ c.utypeFound = d.utypeFound := by
  obtain ⟨hmem, hp, -⟩ := Cursor.forget_parts h
  exact ⟨by rw [found, found, hmem, hp], by rw [utypeFound, utypeFound, hmem, hp]⟩

/-- What stands at a place of the text is read alike in every block. -/
theorem Cursor.readAll_new (signedChar : Bool) (ts : List Tag) (m : Bytes) (p : Nat)
    {block : Uninit} {c : Cursor}
    (h : Cursor.readAll signedChar ts ⟨m, p, EmployeeInfo.new block⟩ = some c) :
    ∃ d, Cursor.readAll signedChar ts ⟨m, p, EmployeeInfo.new emptyBlock⟩ = some d ∧
      c.forget = d.forget := by
  obtain ⟨hc, -⟩ | ⟨c', d, hc, hd, heq⟩ := (Cursor.readAll_blind signedChar ts).cases
    (c := ⟨m, p, EmployeeInfo.new block⟩) (d := ⟨m, p, EmployeeInfo.new emptyBlock⟩) rfl
  · rw [hc] at h
    cases h
  · rw [hc] at h
    cases h
    exact ⟨d, hd, heq⟩

/-- The type is what the text gives, or the byte of the block. -/
theorem utype_new (signedChar : Bool) {ts : List Tag} (m : Bytes) (p : Nat) {block : Uninit}
    {c : Cursor} (hts : Tag.UTYPE ∉ ts)
    (h : (Cursor.readAll signedChar ts ⟨m, p, EmployeeInfo.new block⟩).bind Cursor.utype = some c) :
    c.ei.utype = (utypeOf m p signedChar ts).getD block.utype := by
  obtain ⟨c', hc, hlast⟩ := Option.bind_eq_some_iff.mp h
  obtain ⟨d, hd, heq⟩ := Cursor.readAll_new signedChar ts m p hc
  have hkept := Cursor.readAll_keeps signedChar
    (fun t ht => Cursor.read_keeps_utype signedChar (ne_of_mem_of_not_mem ht hts)) _ c' hc
  rw [Cursor.utype_some hlast, utypeOf, hd, Option.bind_some, (Cursor.found_eq heq "").2, hkept]
  rfl

/-- The card number is what the text gives, in front of what the block held. -/
theorem serial_new (m : Bytes) (p : Nat) {block : Uninit} {c : Cursor}
    (h : fillRecord ⟨m, p, EmployeeInfo.new block⟩ = some c) :
    c.ei.serial_number = (serialOf m p).elim block.serial_number
        (fun s => strncpy block.serial_number s 15 serial_fits) ∧
      c.ei.img_size = block.img_size := by
  have hsplit : offlineTags = [.PIN_NO, .LAB_NO, .LAB_NM, .CO_NM] ++
      (.RFID_CAR :: [.IN_OUT_GB, .ZONE_CD, .ENT_CO_YMD, .RTR_CO_YMD]) := rfl
  rw [fillRecord_eq false, hsplit, Cursor.readAll_append] at h
  obtain ⟨c₄, hread, hlast⟩ := Option.bind_eq_some_iff.mp h
  obtain ⟨c₁, h₁, hread⟩ := Option.bind_eq_some_iff.mp hread
  obtain ⟨c₂, h₂, hread⟩ := Option.bind_eq_some_iff.mp hread
  obtain ⟨d, hd, heq⟩ := Cursor.readAll_new false _ m p h₁
  have hfirst := Cursor.readAll_keeps false
    (fun t ht => Cursor.read_keeps_rest false (by revert t; decide)) _ c₁ h₁
  have hothers := Cursor.readAll_keeps false
    (fun t ht => Cursor.read_keeps_rest false (by revert t; decide)) _ c₄ hread
  obtain ⟨hserial, -, hsize⟩ := Cursor.serialNumber_some h₂
  have hgiven : serialOf m p = c₁.found "RFID_CAR" := by
    rw [serialOf, hd, Option.bind_some, (Cursor.found_eq heq "RFID_CAR").1]
  have hblock : c₁.ei.serial_number = block.serial_number := congrArg (fun r => r.1) hfirst
  have hkept : c₄.ei.serial_number = c₂.ei.serial_number := congrArg (fun r => r.1) hothers
  have hsizes : c₄.ei.img_size = c₂.ei.img_size ∧ c₁.ei.img_size = block.img_size :=
    ⟨congrArg (fun r => r.2.2) hothers, congrArg (fun r => r.2.2) hfirst⟩
  rw [Cursor.utype_some hlast, hgiven]
  exact ⟨by rw [hkept, hserial, hblock], by rw [hsizes.1, hsize, hsizes.2]⟩

/-- A record of the database is what its text gives, and its block. -/
theorem fillRecord_new (m : Bytes) (p : Nat) (block : Uninit) :
    fillRecord ⟨m, p, EmployeeInfo.new block⟩ =
      (fillRecord ⟨m, p, EmployeeInfo.new emptyBlock⟩).map fun c =>
        { c with ei := c.ei.place (serialOf m p) (utypeOf m p false offlineTags) block } := by
  have hblind : Cursor.Blind fillRecord := by
    have h := (Cursor.readAll_blind false offlineTags).bind Cursor.utype_blind
    intro c
    rw [fillRecord_eq false, fillRecord_eq false]
    exact h c
  obtain ⟨hc, hd⟩ | ⟨c, d, hc, hd, heq⟩ := hblind.cases
    (c := ⟨m, p, EmployeeInfo.new block⟩) (d := ⟨m, p, EmployeeInfo.new emptyBlock⟩) rfl
  · rw [hc, hd]
    rfl
  · obtain ⟨hserial, hsize⟩ := serial_new m p hc
    have htype : c.ei.utype = (utypeOf m p false offlineTags).getD block.utype :=
      utype_new false m p (by decide) (by rwa [← fillRecord_eq false])
    obtain ⟨hmem, hp, hei⟩ := Cursor.forget_parts heq
    have hplace : c.ei = d.ei.place (serialOf m p) (utypeOf m p false offlineTags) block := by
      rw [EmployeeInfo.eq_of_forget hei, hserial, htype, hsize]
      rfl
    rw [hc, hd, Option.map_some, ← hplace, ← hmem, ← hp]

/-! ## Replies -/

/-- What the record of a reply gives: the work status, and the byte of the type. -/
def foundReply (signedChar m_bDisplayPhoto : Bool) (m : Bytes) :
    Option (Bytes × Option UInt8) := do
  let opened ← strstr m 0 (ascii "<Table")
  let p ← opened
  let c ← Cursor.readAll signedChar (onlineTags m_bDisplayPhoto)
    ⟨m, p, EmployeeInfo.new emptyBlock⟩
  let d ← c.utype
  some (d.ei.in_out_gb, utypeOf m p signedChar (onlineTags m_bDisplayPhoto))

/-- Where the text gives no record, none is read into any block. -/
theorem fillEmployeeInfo_none {signedChar m_bDisplayPhoto : Bool} {m : Bytes}
    (h : foundReply signedChar m_bDisplayPhoto m = none) :
    ∃ r : Option Unit, ∀ block,
      fillEmployeeInfo signedChar m_bDisplayPhoto m (EmployeeInfo.new block) =
        r.map fun _ => (false, EmployeeInfo.new block) := by
  unfold foundReply at h
  cases hopen : strstr m 0 (ascii "<Table") with
  | none =>
      refine ⟨none, fun block => ?_⟩
      rw [fillEmployeeInfo_eq, hopen]
      rfl
  | some r =>
      cases r with
      | none =>
          refine ⟨some (), fun block => ?_⟩
          rw [fillEmployeeInfo_eq, hopen]
          rfl
      | some p =>
          refine ⟨none, fun block => ?_⟩
          have hblind := (Cursor.readAll_blind signedChar (onlineTags m_bDisplayPhoto)).bind
            Cursor.utype_blind
          simp only [hopen, Option.bind_eq_bind, Option.bind_some] at h
          rw [fillEmployeeInfo_eq, hopen]
          obtain ⟨hc, -⟩ | ⟨c, d, -, hd, -⟩ := hblind.cases
            (c := ⟨m, p, EmployeeInfo.new block⟩) (d := ⟨m, p, EmployeeInfo.new emptyBlock⟩) rfl
          · simp [hc]
          · obtain ⟨c', hc', hd⟩ := Option.bind_eq_some_iff.mp hd
            simp [hc', hd] at h

/-- Where it gives one, the record is read alike into every block, but for the type. -/
theorem fillEmployeeInfo_some {signedChar m_bDisplayPhoto : Bool} {m in_out_gb : Bytes}
    {utype : Option UInt8} (h : foundReply signedChar m_bDisplayPhoto m = some (in_out_gb, utype)) :
    ∃ ei₀ : EmployeeInfo, ei₀.in_out_gb = in_out_gb ∧ ∀ block, ∃ ei,
      fillEmployeeInfo signedChar m_bDisplayPhoto m (EmployeeInfo.new block) = some (true, ei) ∧
        ei.forget = ei₀.forget ∧ ei.utype = utype.getD block.utype := by
  have hlast : Tag.UTYPE ∉ onlineTags m_bDisplayPhoto := by cases m_bDisplayPhoto <;> decide
  simp only [foundReply, Option.bind_eq_bind, Option.bind_eq_some_iff] at h
  rcases h with ⟨r, hopen, p, rfl, c₀, hc₀, d₀, hd₀, h⟩
  cases h
  refine ⟨d₀.ei, rfl, fun block => ?_⟩
  have hread : (Cursor.readAll signedChar (onlineTags m_bDisplayPhoto)
      ⟨m, p, EmployeeInfo.new emptyBlock⟩).bind Cursor.utype = some d₀ := by rw [hc₀]; exact hd₀
  have hblind := (Cursor.readAll_blind signedChar (onlineTags m_bDisplayPhoto)).bind
    Cursor.utype_blind
  obtain ⟨-, hd⟩ | ⟨c, d, hc, hd, heq⟩ := hblind.cases
    (c := ⟨m, p, EmployeeInfo.new block⟩) (d := ⟨m, p, EmployeeInfo.new emptyBlock⟩) rfl
  · rw [hd] at hread
    cases hread
  · rw [hd] at hread
    cases hread
    obtain ⟨-, -, hei⟩ := Cursor.forget_parts heq
    refine ⟨c.ei, ?_, hei, utype_new signedChar m p hlast hc⟩
    rw [fillEmployeeInfo_eq, hopen]
    simp [hc]

/-! ## Lists of records -/

/-- What the text of a record gives: its place in the empty block, its card number and type. -/
structure Found where
  info : EmployeeInfo
  serial : Option Bytes
  utype : Option UInt8
  serial_text : ∀ s, serial = some s → 0 ∉ s

namespace Found

def place (f : Found) (block : Uninit) : EmployeeInfo := f.info.place f.serial f.utype block

/-- The records of a list, the first in the block of index `i`. -/
def placeAll (blocks : Nat → Uninit) : Nat → List Found → List EmployeeInfo
  | _, [] => []
  | i, f :: fs => f.place (blocks i) :: placeAll blocks (i + 1) fs

end Found

/-- The records of a text, as `fillEmployeeInfoes` goes through them. -/
def foundLoop : Nat → Bytes → Nat → Option (List Found)
  | 0, _, _ => none
  | fuel + 1, m, p => do
      match ← strstr m p (ascii "<Table") with
      | none => some []
      | some p =>
          let close ← strstr m (p + 7) (ascii "</Table")
          let stop ← close
          let m ← store m stop 0
          let c ← fillRecord ⟨m, p, EmployeeInfo.new emptyBlock⟩
          let fs ← foundLoop fuel c.mem (stop + 8)
          some (⟨c.ei, serialOf m p, utypeOf m p false offlineTags,
            fun _ => serialOf_text m p⟩ :: fs)

def foundRecords (m : Bytes) : Option (List Found) := foundLoop (m.length + 1) m 0

theorem fillLoop_eq (blocks : Nat → Uninit) (fuel : Nat) (m : Bytes) (p : Nat)
    (elems : List EmployeeInfo) :
    fillLoop blocks fuel m p elems =
      (foundLoop fuel m p).map fun fs => elems ++ Found.placeAll blocks elems.length fs := by
  induction fuel generalizing m p elems with
  | zero => rfl
  | succ fuel ih =>
      simp only [fillLoop, foundLoop]
      cases strstr m p (ascii "<Table") with
      | none => rfl
      | some r =>
          cases r with
          | none => simp [Found.placeAll]
          | some q =>
              simp only [Option.bind_eq_bind, Option.bind_some]
              cases strstr m (q + 7) (ascii "</Table") with
              | none => rfl
              | some close =>
                  cases close with
                  | none => rfl
                  | some stop =>
                      simp only [Option.bind_some]
                      cases store m stop 0 with
                      | none => rfl
                      | some m' =>
                          simp only [Option.bind_some, fillRecord_new m' q (blocks elems.length)]
                          cases fillRecord ⟨m', q, EmployeeInfo.new emptyBlock⟩ with
                          | none => rfl
                          | some c =>
                              simp only [Option.map_some, Option.bind_some, ih]
                              cases foundLoop fuel c.mem (stop + 8) with
                              | none => rfl
                              | some fs => simp [Found.placeAll, Found.place]

/-- The records that are read are what the text gives, and their blocks. -/
theorem fillEmployeeInfoes_eq (blocks : Nat → Uninit) (m : Bytes) :
    fillEmployeeInfoes blocks m [] = (foundRecords m).map (Found.placeAll blocks 0) := by
  rw [fillEmployeeInfoes, fillLoop_eq, foundRecords]
  rfl

end Acu.Employee
