import Acu.Web.PostCommand

/-!
# The room of a command with a body

Nothing compares the strings that are printed to `cmd + 200` with the 200 bytes that
are left there. How many of them the two requests can take is counted here, with the
size of the block as the `int` it is computed in.
-/

namespace Acu.Web

open Acu.Core Acu.Core.CMemory Attendance Tools

namespace SheetArgs

variable (a : SheetArgs)

/-- `400 + encoded_buf_sz`, an `int`. -/
def blockSize : Option Int := do
  let encoded_buf_sz ←
    match a.imageBuf with
    | some img => Base64.InBuffer.base64e2_get_needbufSize img.val.length
    | none => some 0
  Base64.InBuffer.int? (400 + encoded_buf_sz)

/-- The letters of the strings that are printed. -/
def given : Nat :=
  a.sMemcoCd.val.length + a.sSiteCd.val.length + a.sLabNo.val.length + a.sGateNo.val.length +
    a.sGateLoc.val.length + a.sInTime.val.length

/-- What a caller would have to see to: the strings leave room for the literals between them and
for the NUL, the text of a photograph begins in the first 400 bytes, and its size is an `int`. -/
def HasRoom : Prop :=
  a.given + 116 ≤ 200 + a.encoded_buf_sz ∧
    (a.imageBuf.isSome = true → a.prefixText.length ≤ 200) ∧
    400 + a.encoded_buf_sz ≤ 2147483647

theorem format_length : a.format.length = a.given + 115 := by
  have h₁ : (ascii "sMemcoCd=").length = 9 ∧ (ascii "&sSiteCd=").length = 9 ∧
      (ascii "&sLabNo=").length = 8 ∧ (ascii "&sInOut=").length = 8 := by decide
  have h₂ : (ascii "&sGateNo=").length = 9 ∧ (ascii "&sGateLoc=").length = 10 ∧
      (ascii "&sUtype=").length = 8 ∧ (ascii "&sPhotoImage=").length = 13 := by decide
  have h₃ : (ascii "&sAttendGb=&sEventfunctionkey=&sInTime=").length = 39 := by decide +kernel
  simp only [format, given, List.length_append, List.length_cons, List.length_nil, h₁, h₂, h₃]
  omega

theorem hasRoom_iff : a.HasRoom ↔ a.Fits ∧ 400 + a.encoded_buf_sz ≤ 2147483647 := by
  have hcount : a.given + 116 = a.format.length + 1 := by rw [format_length]
  rw [HasRoom, Fits, hcount, and_assoc]

/-- The size for the text of a photograph. -/
theorem encoded_buf_sz_some {img : Image} (h : a.imageBuf = some img) :
    a.encoded_buf_sz = 4 * ((img.val.length + 2) / 3) + 1 := by
  rw [encoded_buf_sz, h]
  change WebService.base64e2_get_needbufSize img.val.length = _
  rw [WebService.needbufSize_eq_photo, Base64.base64e2_http_eq, Base64.encode_length,
    Nat.mul_comm]

/-- A sum that is an `int`. -/
theorem int_eq_some {v w : Int} :
    Base64.InBuffer.int? v = some w ↔ w = v ∧ -2147483648 ≤ v ∧ v ≤ 2147483647 := by
  rw [Base64.InBuffer.int?]
  by_cases h : -2147483648 ≤ v ∧ v ≤ 2147483647
  · simp [h, eq_comm]
  · simp [h]

/-- Where the size for a text can be computed, it is the one that the text needs. -/
theorem needbufSize_some {n : Nat} {size : Int}
    (h : Base64.InBuffer.base64e2_get_needbufSize n = some size) :
    size = 4 * ((n + 2) / 3) + 1 := by
  have hdiv : (n : Int).tdiv 3 = (n / 3 : Nat) := rfl
  have hmod : (n : Int).tmod 3 = (n % 3 : Nat) := rfl
  rw [Base64.InBuffer.base64e2_get_needbufSize, hdiv, hmod] at h
  obtain ⟨t, ht, h⟩ := Option.bind_eq_some_iff.mp h
  obtain ⟨rfl, -⟩ := int_eq_some.mp ht
  dsimp only at h
  by_cases h3 : n % 3 = 0
  · rw [if_neg (by omega), Option.bind_eq_bind, Option.bind_some] at h
    obtain ⟨rfl, -⟩ := int_eq_some.mp h
    omega
  · rw [if_pos (by omega)] at h
    obtain ⟨t', ht', h⟩ := Option.bind_eq_some_iff.mp h
    obtain ⟨rfl, -⟩ := int_eq_some.mp ht'
    obtain ⟨rfl, -⟩ := int_eq_some.mp h
    omega

theorem blockSize_some (h : 400 + a.encoded_buf_sz ≤ 2147483647) :
    a.blockSize = some ((400 + a.encoded_buf_sz : Nat) : Int) := by
  have hint : Base64.InBuffer.int? ((400 + a.encoded_buf_sz : Nat) : Int) =
      some ((400 + a.encoded_buf_sz : Nat) : Int) := int_eq_some.mpr ⟨rfl, by omega, by omega⟩
  rw [blockSize]
  cases himg : a.imageBuf with
  | none =>
      rw [encoded_buf_sz, himg]
      rfl
  | some img =>
      have hsize := a.encoded_buf_sz_some himg
      have hneed := Base64.needbufSize_eq img.val.length (by omega)
      rw [← hsize] at hneed
      change (Base64.InBuffer.base64e2_get_needbufSize img.val.length).bind _ = _
      rw [hneed]
      exact hint

/-- A size that is computed is the size of the block. -/
theorem blockSize_le {size : Int} (h : a.blockSize = some size) :
    400 + a.encoded_buf_sz ≤ 2147483647 := by
  rw [blockSize] at h
  cases himg : a.imageBuf with
  | none =>
      rw [encoded_buf_sz, himg]
      decide
  | some img =>
      rw [himg] at h
      obtain ⟨need, hneed, h⟩ := Option.bind_eq_some_iff.mp h
      obtain ⟨rfl, -, hle⟩ := int_eq_some.mp h
      have hsize := a.encoded_buf_sz_some himg
      rw [needbufSize_some hneed] at hle
      omega

end SheetArgs

namespace WebService

/-- A call that writes nothing outside its block, nor forms a pointer before it. -/
def StaysInside (cmd : Option (Bytes × Int)) : Prop :=
  ∃ m cmd_offset, cmd = some (m, cmd_offset) ∧ 0 ≤ cmd_offset

variable (memory : Nat → UInt8) (itoaBuf : CharArray 32) (m_serverIP : ServerIP)

/-- The command of `request_TimeSheetInsertString`, in a block whose size is computed first. -/
def timeSheetCmdSized (a : SheetArgs) : Option (Bytes × Int) := do
  let _ ← a.blockSize
  timeSheetCmd memory itoaBuf m_serverIP a

section RfidInfoSelect

variable (sMemcoCd sSiteCd serialnum : CString)

theorem rfidInfoSelectContent_length :
    (rfidInfoSelectContent sMemcoCd.val sSiteCd.val serialnum.val).length =
      sMemcoCd.val.length + sSiteCd.val.length + serialnum.val.length + 58 := by
  have h₁ : (ascii "sMemcoCd=").length = 9 ∧ (ascii "&sSiteCd=").length = 9 := by decide
  have h₂ : (ascii "&sUtype=R&sMode=&sSearchValue=RFID_CAR='").length = 40 := by decide +kernel
  simp only [rfidInfoSelectContent, List.length_append, h₁, h₂]
  omega

theorem rfidInfoSelectCmd_stays_iff :
    StaysInside (rfidInfoSelectCmd memory itoaBuf m_serverIP sMemcoCd sSiteCd serialnum) ↔
      sMemcoCd.val.length + sSiteCd.val.length + serialnum.val.length ≤ 141 := by
  have hlen := rfidInfoSelectContent_length sMemcoCd sSiteCd serialnum
  constructor
  · intro h
    rcases h with ⟨m, cmd_offset, h, -⟩
    by_contra hlong
    have hnone : blit ((List.range 400).map memory) 200
        (rfidInfoSelectContent sMemcoCd.val sSiteCd.val serialnum.val ++ [0]) = none := by
      rw [blit, if_neg]
      simp only [List.length_map, List.length_range, List.length_append, List.length_singleton]
      omega
    rw [rfidInfoSelectCmd, hnone] at h
    cases h
  · intro h
    rcases rfidInfoSelectCmd_carries memory itoaBuf m_serverIP sMemcoCd sSiteCd serialnum
      (by omega) with ⟨m, cmd_offset, hcmd, hoffset, -⟩
    exact ⟨m, cmd_offset, hcmd, hoffset⟩

end RfidInfoSelect

theorem timeSheetCmd_stays_iff (a : SheetArgs) :
    StaysInside (timeSheetCmdSized memory itoaBuf m_serverIP a) ↔ a.HasRoom := by
  rw [a.hasRoom_iff]
  constructor
  · intro h
    rcases h with ⟨m, cmd_offset, h, -⟩
    obtain ⟨size, hsize, hcmd⟩ := Option.bind_eq_some_iff.mp h
    refine ⟨?_, a.blockSize_le hsize⟩
    by_contra hfits
    rw [timeSheetCmd_overflows memory itoaBuf m_serverIP a hfits] at hcmd
    cases hcmd
  · intro h
    obtain ⟨pre, post, -, hcmd⟩ := timeSheetCmd_eq memory itoaBuf m_serverIP a h.1
    rw [timeSheetCmdSized, a.blockSize_some h.2, Option.bind_eq_bind, Option.bind_some, hcmd]
    exact ⟨_, _, rfl, Int.natCast_nonneg pre.length⟩

/-- The two requests stay inside their blocks precisely when the strings they are given are short
enough; nothing on the way from the reader or the server to them sees to it. -/
theorem commands_stay_inside_iff (sMemcoCd sSiteCd serialnum : CString) (a : SheetArgs) :
    (StaysInside (rfidInfoSelectCmd memory itoaBuf m_serverIP sMemcoCd sSiteCd serialnum) ↔
        sMemcoCd.val.length + sSiteCd.val.length + serialnum.val.length ≤ 141) ∧
      (StaysInside (timeSheetCmdSized memory itoaBuf m_serverIP a) ↔ a.HasRoom) :=
  ⟨rfidInfoSelectCmd_stays_iff memory itoaBuf m_serverIP sMemcoCd sSiteCd serialnum,
    timeSheetCmd_stays_iff memory itoaBuf m_serverIP a⟩

/-- An entry of a worker with a LAB_NO of 200 letters. -/
def longLabNo : SheetArgs :=
  { entryArgs with sLabNo := ⟨List.replicate 200 65, by decide +kernel⟩, imageBuf := none }

theorem longLabNo_has_no_room : ¬ longLabNo.HasRoom := by
  rw [SheetArgs.HasRoom]
  decide +kernel

/-- Its number is printed over the end of the block. -/
theorem longLabNo_leaves_block :
    ¬ StaysInside (timeSheetCmdSized (fun _ => 0) ⟨List.replicate 32 0, rfl⟩ gateIP
      longLabNo) := by
  intro h
  exact longLabNo_has_no_room ((timeSheetCmd_stays_iff _ _ _ longLabNo).mp h)

end WebService

end Acu.Web
