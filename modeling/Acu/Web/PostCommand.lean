import Acu.Tools.RequestEncoder
import Acu.Tools.Utils
import Acu.Web.Outcomes

/-!
# Commands with a body

Two requests print their body first, to `cmd + 200`, and then the header backwards
into the space before it: its length is counted by hand, but for the address and the
digits of the length of the body. The NUL behind the header falls on the first letter
of the body, which is written once more.
-/

namespace Acu.Web

open Acu.Core Acu.Core.CMemory Attendance Tools

/-- A string that is passed by its address. -/
def CString := { s : Bytes // 0 ∉ s }

/-- `char m_serverIP[16]`. -/
def ServerIP := { s : Bytes // 0 ∉ s ∧ s.length ≤ 15 }

/-- A photograph with its size, an `int`. -/
def Image := { img : Bytes // img.length ≤ 2147483647 }

/-- The arguments of `request_TimeSheetInsertString` that its command is made of. -/
structure SheetArgs where
  sMemcoCd : CString
  sSiteCd : CString
  sLabNo : CString
  cInOut : UInt8
  sGateNo : CString
  sGateLoc : CString
  cUtype : UInt8
  sInTime : CString
  imageBuf : Option Image

namespace SheetArgs

variable (a : SheetArgs)

/-- What `sprintf` prints to `cmd_content`; either `%c` may print a NUL. -/
def format : Bytes :=
  ascii "sMemcoCd=" ++ a.sMemcoCd.val ++ ascii "&sSiteCd=" ++ a.sSiteCd.val ++
    ascii "&sLabNo=" ++ a.sLabNo.val ++ ascii "&sInOut=" ++ [a.cInOut] ++
    ascii "&sGateNo=" ++ a.sGateNo.val ++ ascii "&sGateLoc=" ++ a.sGateLoc.val ++
    ascii "&sUtype=" ++ [a.cUtype] ++ ascii "&sAttendGb=&sEventfunctionkey=&sInTime=" ++
    a.sInTime.val ++ ascii "&sPhotoImage="

/-- The text of the photograph; there is none without one. -/
def photo : Bytes :=
  match a.imageBuf with
  | some img => Base64.base64e2_http img.val
  | none => []

/-- `encoded_buf_sz`, the room for the text of the photograph. A photograph and its text lie in
one memory, so that their sizes are counted without the bound of an `int`. -/
def encoded_buf_sz : Nat :=
  match a.imageBuf with
  | some img => WebService.base64e2_get_needbufSize img.val.length
  | none => 0

/-- The string at `cmd_content`. -/
def prefixText : Bytes := a.format.takeWhile (· ≠ 0)

/-- The string at `cmd_content` with the photograph behind it. -/
def body : Bytes := a.prefixText ++ a.photo

/-- The header for a body of the given length. -/
def header (m_serverIP : Bytes) (contentlen : Nat) : Bytes :=
  ascii "POST /WebService/ItlogService.asmx/TimeSheetInsertString HTTP/1.1\r\nHost: " ++
    m_serverIP ++
    ascii "\r\nContent-Type: application/x-www-form-urlencoded\r\nContent-Length: " ++
    digits 10 contentlen ++ ascii "\r\n\r\n"

/-- The settings that the arguments are taken from. -/
def config (m_serverIP : ServerIP) : Config where
  m_sMemcoCd := a.sMemcoCd.val
  m_sSiteCd := a.sSiteCd.val
  m_sDvLoc := a.sGateLoc.val
  m_sDvNo := a.sGateNo.val
  m_cInOut := a.cInOut
  m_serverIP := m_serverIP.val

/-- The time sheet they are taken from. -/
def timeSheet : TimeSheet where
  m_lab_no := a.sLabNo.val
  m_utype := a.cUtype
  m_time := a.sInTime.val
  m_photo_img :=
    match a.imageBuf with
    | some img => img.val
    | none => []

theorem content_config (m_serverIP : ServerIP) :
    (a.config m_serverIP).content a.timeSheet = a.body := by
  have hphoto : Base64.base64e2_http a.timeSheet.m_photo_img = a.photo := by
    rw [timeSheet, photo]
    cases a.imageBuf with
    | none => rfl
    | some img => rfl
  rw [Config.content, hphoto]
  rfl

/-- What is printed of the body stays in the block, and leaves the photograph its room. -/
def Fits : Prop :=
  a.format.length + 1 ≤ 200 + a.encoded_buf_sz ∧
    (a.imageBuf.isSome = true → a.prefixText.length ≤ 200)

instance : Decidable a.Fits := inferInstanceAs (Decidable (_ ∧ (_ → _)))

end SheetArgs

namespace WebService

/-- From `headerlength` on: the header before a body of `contentlen` bytes at `cmd + 200`, and
the first letter of the body once more. The static buffer of `itoa` holds what it held. -/
def finishPost (itoaBuf : CharArray 32) (literals : Nat) (m_serverIP : Bytes)
    (header : Nat → Bytes) (contentlen : Nat) (cmd : Bytes) : Option (Bytes × Int) := do
  let (buf, p) ← itoa itoaBuf contentlen 10
  let count ← strlen buf p
  let headerlength : Int := literals + m_serverIP.length + count
  let cmd_offset := 200 - headerlength
  let at_ ← index? cmd_offset
  let cmd ← blit cmd at_ (header contentlen ++ [0])
  let cmd ← store cmd 200 115
  some (cmd, cmd_offset)

/-- The command of `request_RfidInfoSelect` and its offset. -/
def rfidInfoSelectCmd (memory : Nat → UInt8) (itoaBuf : CharArray 32) (m_serverIP : ServerIP)
    (sMemcoCd sSiteCd serialnum : CString) : Option (Bytes × Int) := do
  let content := rfidInfoSelectContent sMemcoCd.val sSiteCd.val serialnum.val
  let cmd ← blit ((List.range 400).map memory) 200 (content ++ [0])
  let contentlen ← strlen cmd 200
  finishPost itoaBuf 137 m_serverIP.val (rfidInfoSelectHeader m_serverIP.val) contentlen cmd

/-- The command of `request_TimeSheetInsertString` and its offset. -/
def timeSheetCmd (memory : Nat → UInt8) (itoaBuf : CharArray 32) (m_serverIP : ServerIP)
    (a : SheetArgs) : Option (Bytes × Int) := do
  let cmd ← blit ((List.range (400 + a.encoded_buf_sz)).map memory) 200 (a.format ++ [0])
  let cmd_content_prefix ← strlen cmd 200
  let (cmd, base64_encoded_len) ←
    match a.imageBuf with
    | some img =>
        Base64.InBuffer.base64e2_http img.val img.val.length cmd (200 + cmd_content_prefix)
    | none => some (cmd, 0)
  finishPost itoaBuf 144 m_serverIP.val (SheetArgs.header m_serverIP.val)
    ( cmd_content_prefix + base64_encoded_len) cmd

end WebService

/-! ## Printing into a block -/

/-- What is printed into a block at 200 is read there as a string up to its first NUL. -/
theorem printed_at_200 {m s : Bytes} (h : 200 + (s.length + 1) ≤ m.length) :
    ∃ front post : Bytes, front.length = 200 ∧ 0 ∉ s.takeWhile (· ≠ 0) ∧
      (front ++ (s.takeWhile (· ≠ 0) ++ 0 :: post)).length = m.length ∧
      blit m 200 (s ++ [0]) = some (front ++ (s.takeWhile (· ≠ 0) ++ 0 :: post)) ∧
      strlen (front ++ (s.takeWhile (· ≠ 0) ++ 0 :: post)) 200 =
        some (s.takeWhile (· ≠ 0)).length := by
  obtain ⟨front, back, rfl, hfront⟩ := exists_split (n := 200) (m := m) (by omega)
  rw [List.length_append] at h
  obtain ⟨old, post, rfl, hold⟩ := exists_split (n := s.length + 1) (m := back) (by omega)
  have hblit := blit_behind front old (s ++ [0]) post (by simpa using hold)
  obtain ⟨hnul, rest, hrest⟩ := cstring_eq_some (cstring_takeWhile s post)
  have hmem : s ++ [0] ++ post = s.takeWhile (· ≠ 0) ++ 0 :: rest := by
    rw [← hrest, List.append_assoc, List.singleton_append]
  refine ⟨front, rest, hfront, hnul, ?_, ?_, ?_⟩
  · rw [← hmem]
    simp only [List.append_assoc, List.cons_append, List.nil_append, List.length_append,
      List.length_cons, Nat.add_left_cancel_iff]
    omega
  · rw [hfront] at hblit
    rw [hblit, hmem]
  · rw [← hfront]
    exact strlen_append front hnul rest

namespace WebService

/-! ## The command as one text -/

/-- A command that is passed on is, from its offset on, the header for the body and the body. -/
def Carries (cmd : Option (Bytes × Int)) (header : Nat → Bytes) (body : Bytes) : Prop :=
  ∃ m cmd_offset, cmd = some (m, cmd_offset) ∧ 0 ≤ cmd_offset ∧
    stringAt m cmd_offset.toNat = some (header body.length ++ body)

/-- A header is printed up to the body; its NUL goes over the first letter of the body, which is
written once more. -/
theorem header_printed {front c header : Bytes} (post : Bytes) (hfront : front.length = 200)
    (hspace : header.length ≤ 200) :
    ∃ pre m : Bytes, pre.length + header.length = 200 ∧
      blit (front ++ (115 :: c ++ 0 :: post)) pre.length (header ++ [0]) = some m ∧
      store m 200 115 = some (pre ++ (header ++ (115 :: c ++ 0 :: post))) := by
  obtain ⟨pre, old, rfl, hpre⟩ := exists_split (n := 200 - header.length) (m := front) (by omega)
  rw [List.length_append] at hfront
  have hold : old.length = header.length := by omega
  have h200 : pre.length + header.length = 200 := by omega
  have hblit := blit_behind pre (old ++ [115]) (header ++ [0]) (c ++ 0 :: post) (by simp [hold])
  have hblock : pre ++ old ++ (115 :: c ++ 0 :: post) =
      pre ++ (old ++ [115] ++ (c ++ 0 :: post)) := by simp
  have hpatch := store_behind pre header 0 115 (c ++ 0 :: post)
  rw [h200] at hpatch
  refine ⟨pre, pre ++ (header ++ [0] ++ (c ++ 0 :: post)), h200, ?_, ?_⟩
  · rw [hblock, hblit]
  · simpa using hpatch

/-- A header that is as long as it is counted fills the space up to the body. -/
theorem finishPost_eq (itoaBuf : CharArray 32) {literals n : Nat} {m_serverIP : Bytes}
    {header : Nat → Bytes} {front : Bytes} (c post : Bytes) (hfront : front.length = 200)
    (hfits : n < 10 ^ 30)
    (hlen : (header n).length = literals + m_serverIP.length + (digits 10 n).length)
    (hspace : (header n).length ≤ 200) :
    ∃ pre : Bytes, pre.length + (header n).length = 200 ∧
      finishPost itoaBuf literals m_serverIP header n (front ++ (115 :: c ++ 0 :: post)) =
        some (pre ++ (header n ++ (115 :: c ++ 0 :: post)), (pre.length : Int)) := by
  obtain ⟨buf, p, hitoa, -, hdigits⟩ :
      ∃ buf p, itoa itoaBuf n 10 = some (buf, p) ∧ buf.length = 32 ∧
        stringAt buf p = some (digits 10 n) :=
    itoa_digits (by decide) (by decide) itoaBuf hfits
  have hcount : strlen buf p = some (digits 10 n).length :=
    congrArg (Option.map List.length) hdigits
  obtain ⟨pre, m, h200, hblit, hstore⟩ := header_printed (c := c) post hfront hspace
  have hoff : (200 : Int) - ((literals : Int) + m_serverIP.length + (digits 10 n).length) =
      pre.length := by
    omega
  have hindex : index? (pre.length : Int) = some pre.length := by simp [index?]
  refine ⟨pre, h200, ?_⟩
  rw [finishPost, hitoa]
  simp only [Option.bind_eq_bind, Option.bind_some, hcount, hoff, hindex, hblit, hstore]

/-- Read from its offset on, such a command is the header and the body. -/
theorem carries_of_eq {cmd : Option (Bytes × Int)} {header : Nat → Bytes} {pre body post : Bytes}
    (h : cmd = some (pre ++ (header body.length ++ (body ++ 0 :: post)), (pre.length : Int)))
    (hheader : 0 ∉ header body.length) (hbody : 0 ∉ body) : Carries cmd header body := by
  have hnul : 0 ∉ header body.length ++ body := by
    rw [List.mem_append, not_or]
    exact ⟨hheader, hbody⟩
  refine ⟨_, _, h, Int.natCast_nonneg pre.length, ?_⟩
  rw [Int.toNat_natCast, ← List.append_assoc (header body.length)]
  exact stringAt_append pre hnul post

theorem nul_not_mem_ascii_header :
    0 ∉ ascii "POST /WebService/ItlogService.asmx/RfidInfoSelect HTTP/1.1\r\nHost: " ∧
      0 ∉ ascii "POST /WebService/ItlogService.asmx/TimeSheetInsertString HTTP/1.1\r\nHost: " ∧
      0 ∉ ascii "\r\nContent-Type: application/x-www-form-urlencoded\r\nContent-Length: " ∧
      0 ∉ ascii "\r\n\r\n" := by
  decide +kernel

theorem rfidInfoSelectHeader_nul (m_serverIP : ServerIP) (n : Nat) :
    0 ∉ rfidInfoSelectHeader m_serverIP.val n := by
  rcases nul_not_mem_ascii_header with ⟨h₁, -, h₂, h₃⟩
  simp only [rfidInfoSelectHeader, List.mem_append, not_or]
  exact ⟨⟨⟨⟨h₁, m_serverIP.property.1⟩, h₂⟩, nul_not_mem_digits (by decide) (by decide) n⟩, h₃⟩

theorem timeSheetHeader_nul (m_serverIP : ServerIP) (n : Nat) :
    0 ∉ SheetArgs.header m_serverIP.val n := by
  rcases nul_not_mem_ascii_header with ⟨-, h₁, h₂, h₃⟩
  simp only [SheetArgs.header, List.mem_append, not_or]
  exact ⟨⟨⟨⟨h₁, m_serverIP.property.1⟩, h₂⟩, nul_not_mem_digits (by decide) (by decide) n⟩, h₃⟩

/-- The literals of the header are as long as they were counted. -/
theorem rfidInfoSelectHeader_length (ip : Bytes) (n : Nat) :
    (rfidInfoSelectHeader ip n).length = 137 + ip.length + (digits 10 n).length := by
  have h₁ : (ascii
      "POST /WebService/ItlogService.asmx/RfidInfoSelect HTTP/1.1\r\nHost: ").length = 66 := by
    decide +kernel
  have h₂ : (ascii
      "\r\nContent-Type: application/x-www-form-urlencoded\r\nContent-Length: ").length = 67 := by
    decide +kernel
  have h₃ : (ascii "\r\n\r\n").length = 4 := by decide
  simp only [rfidInfoSelectHeader, List.length_append, h₁, h₂, h₃]
  omega

theorem timeSheetHeader_length (ip : Bytes) (n : Nat) :
    (SheetArgs.header ip n).length = 144 + ip.length + (digits 10 n).length :=
  Config.length_header { gateConfig with m_serverIP := ip } n

theorem digits_length_le {n : Nat} (h : n < 10 ^ 10) : (digits 10 n).length ≤ 10 := by
  rw [digits, List.length_map]
  exact (Nat.length_toDigits_le_iff (by decide) (by decide)).mpr h

section RfidInfoSelect

variable (memory : Nat → UInt8) (itoaBuf : CharArray 32) (m_serverIP : ServerIP)
variable (sMemcoCd sSiteCd serialnum : CString)

theorem rfidInfoSelectContent_nul :
    0 ∉ rfidInfoSelectContent sMemcoCd.val sSiteCd.val serialnum.val := by
  have h₁ : 0 ∉ ascii "sMemcoCd=" ∧ 0 ∉ ascii "&sSiteCd=" ∧
      0 ∉ ascii "&sUtype=R&sMode=&sSearchValue=RFID_CAR='" := by decide
  simp only [rfidInfoSelectContent, List.mem_append, not_or]
  exact ⟨⟨⟨⟨⟨h₁.1, sMemcoCd.property⟩, h₁.2.1⟩, sSiteCd.property⟩, h₁.2.2⟩, serialnum.property⟩

theorem rfidInfoSelectContent_begins :
    ∃ c, rfidInfoSelectContent sMemcoCd.val sSiteCd.val serialnum.val = 115 :: c :=
  ⟨_, rfl⟩

/-- The header has its place before a body of less than 200 bytes. -/
theorem rfidInfoSelectHeader_space {n : Nat} (h : n + 1 ≤ 200) :
    (rfidInfoSelectHeader m_serverIP.val n).length ≤ 200 := by
  have hdigits : (digits 10 n).length ≤ 10 := digits_length_le (by omega)
  have hip := m_serverIP.property.2
  rw [rfidInfoSelectHeader_length]
  omega

theorem rfidInfoSelectCmd_carries
    (h : (rfidInfoSelectContent sMemcoCd.val sSiteCd.val serialnum.val).length + 1 ≤ 200) :
    Carries (rfidInfoSelectCmd memory itoaBuf m_serverIP sMemcoCd sSiteCd serialnum)
      (rfidInfoSelectHeader m_serverIP.val)
      (rfidInfoSelectContent sMemcoCd.val sSiteCd.val serialnum.val) := by
  have hnul := rfidInfoSelectContent_nul sMemcoCd sSiteCd serialnum
  obtain ⟨c, hc⟩ := rfidInfoSelectContent_begins sMemcoCd sSiteCd serialnum
  rw [hc] at h hnul
  have hblock : ((List.range 400).map memory).length = 400 := by
    rw [List.length_map, List.length_range]
  obtain ⟨front, post, hfront, -, -, hprint, hlen⟩ :=
    printed_at_200 (m := (List.range 400).map memory) (s := 115 :: c) (by omega)
  rw [takeWhile_of_nul_not_mem hnul] at hprint hlen
  obtain ⟨pre, -, hcmd⟩ := finishPost_eq itoaBuf c post hfront (by omega)
    (rfidInfoSelectHeader_length m_serverIP.val (115 :: c).length)
    (rfidInfoSelectHeader_space m_serverIP h)
  have hwhole : rfidInfoSelectCmd memory itoaBuf m_serverIP sMemcoCd sSiteCd serialnum =
      some (pre ++ (rfidInfoSelectHeader m_serverIP.val (115 :: c).length ++
        (115 :: c ++ 0 :: post)), (pre.length : Int)) := by
    rw [rfidInfoSelectCmd, hc]
    simp only [hprint, hlen, Option.bind_eq_bind, Option.bind_some, hcmd]
  rw [hc]
  exact carries_of_eq hwhole (rfidInfoSelectHeader_nul m_serverIP _) hnul

end RfidInfoSelect

section TimeSheet

variable (memory : Nat → UInt8) (itoaBuf : CharArray 32) (m_serverIP : ServerIP) (a : SheetArgs)

theorem photo_nul : 0 ∉ a.photo := by
  unfold SheetArgs.photo
  split
  · rw [Base64.base64e2_http_eq]
    exact Base64.nul_not_mem_encode Base64.http _
  · simp

theorem prefixText_nul : 0 ∉ a.prefixText :=
  (cstring_eq_some (cstring_takeWhile a.format [])).1

theorem body_nul : 0 ∉ a.body := by
  rw [SheetArgs.body, List.mem_append, not_or]
  exact ⟨prefixText_nul a, photo_nul a⟩

theorem prefixText_length_le : a.prefixText.length ≤ a.format.length :=
  (List.takeWhile_sublist _).length_le

/-- The letter that is written once more. -/
theorem body_begins : ∃ c, a.body = 115 :: c := by
  have hs : ascii "sMemcoCd=" = 115 :: ascii "MemcoCd=" := by decide
  have hprefix : ∃ c, a.format = 115 :: c := by
    unfold SheetArgs.format
    simp only [hs, List.cons_append]
    exact ⟨_, rfl⟩
  rcases hprefix with ⟨c, hc⟩
  rw [SheetArgs.body, SheetArgs.prefixText, hc]
  exact ⟨_, rfl⟩

theorem needbufSize_eq_photo (img : Bytes) :
    base64e2_get_needbufSize img.length = (Base64.base64e2_http img).length + 1 := by
  rw [Base64.base64e2_http_eq, Base64.encode_length, base64e2_get_needbufSize]
  split <;> omega

theorem encoder_eq (img pre old : Bytes) :
    Base64.InBuffer.base64e2_http img img.length (pre ++ old) pre.length =
      if base64e2_get_needbufSize img.length ≤ old.length then
        some (pre ++ (Base64.base64e2_http img ++
          0 :: old.drop (base64e2_get_needbufSize img.length)), (Base64.base64e2_http img).length)
      else none := by
  rw [needbufSize_eq_photo, Base64.base64e2_http_eq]
  exact Base64.InBuffer.encode_eq Base64.http img pre old

/-- What does not fit is written behind the block. -/
theorem timeSheetCmd_overflows (h : ¬ a.Fits) :
    timeSheetCmd memory itoaBuf m_serverIP a = none := by
  have hblock : ((List.range (400 + a.encoded_buf_sz)).map memory).length =
      400 + a.encoded_buf_sz := by
    rw [List.length_map, List.length_range]
  by_cases hformat : a.format.length + 1 ≤ 200 + a.encoded_buf_sz
  · obtain ⟨front, post, hfront, -, hlength, hprint, hlen⟩ :=
      printed_at_200 (m := (List.range (400 + a.encoded_buf_sz)).map memory) (s := a.format)
        (by rw [hblock]; omega)
    have himg : a.imageBuf.isSome = true ∧ 200 < a.prefixText.length := by
      by_contra hno
      exact h ⟨hformat, fun hsome => by_contra fun hlong => hno ⟨hsome, by omega⟩⟩
    rcases himg with ⟨hsome, hlong⟩
    obtain ⟨img, himg⟩ := Option.isSome_iff_exists.mp hsome
    have hsize : a.encoded_buf_sz = base64e2_get_needbufSize img.val.length := by
      rw [SheetArgs.encoded_buf_sz, himg]
    rw [hblock, List.length_append, List.length_append, hfront] at hlength
    have hnone := encoder_eq img.val (front ++ a.prefixText) (0 :: post)
    have hroom : ¬ base64e2_get_needbufSize img.val.length ≤ (0 :: post).length := by
      change 200 + (a.prefixText.length + (0 :: post).length) = _ at hlength
      omega
    rw [if_neg hroom, List.length_append, hfront, List.append_assoc] at hnone
    rw [timeSheetCmd]
    simp only [hprint, hlen, himg, Option.bind_eq_bind, Option.bind_some]
    change (Base64.InBuffer.base64e2_http img.val img.val.length
      (front ++ (a.prefixText ++ 0 :: post)) (200 + a.prefixText.length)).bind _ = none
    rw [hnone]
    rfl
  · have hnone : blit ((List.range (400 + a.encoded_buf_sz)).map memory) 200
        (a.format ++ [0]) = none := by
      rw [blit, if_neg]
      rw [hblock, List.length_append, List.length_singleton]
      omega
    rw [timeSheetCmd, hnone]
    rfl

/-- The body is printed and the photograph behind it, inside the block. -/
theorem body_printed (h : a.Fits) :
    ∃ front post : Bytes, front.length = 200 ∧
      timeSheetCmd memory itoaBuf m_serverIP a =
        finishPost itoaBuf 144 m_serverIP.val (SheetArgs.header m_serverIP.val) a.body.length
          (front ++ (a.body ++ 0 :: post)) := by
  have hblock : ((List.range (400 + a.encoded_buf_sz)).map memory).length =
      400 + a.encoded_buf_sz := by
    rw [List.length_map, List.length_range]
  obtain ⟨front, post, hfront, -, hlength, hprint, hlen⟩ :=
    printed_at_200 (m := (List.range (400 + a.encoded_buf_sz)).map memory) (s := a.format)
      (by rw [hblock]; have := h.1; omega)
  cases himg : a.imageBuf with
  | none =>
      have hbody : a.body = a.format.takeWhile (· ≠ 0) := by
        rw [SheetArgs.body, SheetArgs.photo, himg, List.append_nil]
        rfl
      refine ⟨front, post, hfront, ?_⟩
      rw [timeSheetCmd]
      simp only [hprint, hlen, himg, Nat.add_zero, Option.bind_eq_bind, Option.bind_some, hbody]
  | some img =>
      have hsize : a.encoded_buf_sz = base64e2_get_needbufSize img.val.length := by
        rw [SheetArgs.encoded_buf_sz, himg]
      have hprefix : (a.format.takeWhile (· ≠ 0)).length ≤ 200 := h.2 (by rw [himg]; rfl)
      rw [hblock, List.length_append, List.length_append, hfront] at hlength
      have hencode := encoder_eq img.val (front ++ a.format.takeWhile (· ≠ 0)) (0 :: post)
      rw [if_pos (by omega), List.length_append, hfront, List.append_assoc] at hencode
      have hbody : a.body = a.format.takeWhile (· ≠ 0) ++ Base64.base64e2_http img.val := by
        rw [SheetArgs.body, SheetArgs.photo, himg]
        rfl
      refine ⟨front, (0 :: post).drop (base64e2_get_needbufSize img.val.length), hfront, ?_⟩
      rw [timeSheetCmd]
      simp only [hprint, hlen, himg, Option.bind_eq_bind, Option.bind_some, hencode]
      rw [hbody, List.length_append, List.append_assoc, List.append_assoc]

theorem prefixText_le_of_fits (h : a.Fits) : a.prefixText.length ≤ 200 := by
  cases himg : a.imageBuf with
  | none =>
      have hformat := h.1
      have hle := prefixText_length_le a
      rw [SheetArgs.encoded_buf_sz, himg] at hformat
      dsimp only at hformat
      omega
  | some img => exact h.2 (by rw [himg]; rfl)

/-- The length of a body has no more digits than the header leaves room for. -/
theorem body_length_lt (h : a.Fits) : a.body.length < 10 ^ 10 := by
  have hprefix := prefixText_le_of_fits a h
  have hphoto : a.photo.length ≤ 4 * 715827883 := by
    unfold SheetArgs.photo
    split
    next img _ =>
      have himg := img.property
      rw [Base64.base64e2_http_eq, Base64.encode_length]
      omega
    · simp
  rw [SheetArgs.body, List.length_append]
  omega

/-- A body that fits has its room in the block. -/
theorem body_room (h : a.Fits) :
    200 + (a.body.length + 1) ≤ 400 + a.encoded_buf_sz := by
  have hprefix := prefixText_le_of_fits a h
  have hformat := h.1
  have hle := prefixText_length_le a
  rw [SheetArgs.body, List.length_append]
  rw [SheetArgs.encoded_buf_sz] at hformat ⊢
  rw [SheetArgs.photo]
  cases himg : a.imageBuf with
  | none =>
      simp only [himg, List.length_nil] at hformat ⊢
      omega
  | some img =>
      simp only [needbufSize_eq_photo]
      omega

theorem timeSheetHeader_space (h : a.Fits) :
    (SheetArgs.header m_serverIP.val a.body.length).length ≤ 200 := by
  have hdigits := digits_length_le (body_length_lt a h)
  have hip := m_serverIP.property.2
  rw [timeSheetHeader_length]
  omega

/-- The whole command, when the body fits. -/
theorem timeSheetCmd_eq (h : a.Fits) :
    ∃ pre post : Bytes, pre.length + (SheetArgs.header m_serverIP.val a.body.length).length = 200 ∧
      timeSheetCmd memory itoaBuf m_serverIP a =
        some (pre ++ (SheetArgs.header m_serverIP.val a.body.length ++ (a.body ++ 0 :: post)),
          (pre.length : Int)) := by
  obtain ⟨front, post, hfront, hcmd⟩ := body_printed memory itoaBuf m_serverIP a h
  obtain ⟨c, hc⟩ := body_begins a
  have hsmall := body_length_lt a h
  have hspace := timeSheetHeader_space m_serverIP a h
  rw [hcmd]
  rw [hc] at hsmall hspace ⊢
  obtain ⟨pre, hpre, hfinish⟩ := finishPost_eq itoaBuf c post hfront (by omega)
    (timeSheetHeader_length m_serverIP.val (115 :: c).length) hspace
  exact ⟨pre, post, hpre, hfinish⟩

theorem timeSheetCmd_carries (h : a.Fits) :
    Carries (timeSheetCmd memory itoaBuf m_serverIP a) (SheetArgs.header m_serverIP.val)
      a.body := by
  obtain ⟨pre, post, -, hcmd⟩ := timeSheetCmd_eq memory itoaBuf m_serverIP a h
  exact carries_of_eq hcmd (timeSheetHeader_nul m_serverIP _) (body_nul a)

theorem fits_of_format (h : a.format.length + 1 ≤ 200) : a.Fits := by
  have hle := prefixText_length_le a
  exact ⟨by omega, fun _ => by omega⟩

end TimeSheet

/-! ## The objects of the requests -/

/-- The string that is passed on. -/
def passedOn (cmd : Option (Bytes × Int)) : Option Bytes :=
  cmd.bind fun c => stringAt c.1 c.2.toNat

theorem Carries.passedOn_eq {cmd : Option (Bytes × Int)} {header : Nat → Bytes} {body : Bytes}
    (h : Carries cmd header body) : passedOn cmd = some (header body.length ++ body) := by
  rcases h with ⟨m, cmd_offset, rfl, -, htext⟩
  exact htext

/-- A content printed in one step, and the header in front of it, read as one text. -/
theorem postCmd_text (memory : Nat → UInt8) {size headerlength : Nat} {header c : Bytes}
    (hheader : 0 ∉ header) (hnul : 0 ∉ 115 :: c) (hlen : header.length = headerlength)
    (hspace : header.length ≤ 200) (hsize : 200 + ((115 :: c).length + 1) ≤ size) :
    ∃ cmd cmd_offset, postCmd memory size headerlength header (115 :: c) = some (cmd, cmd_offset) ∧
      stringAt cmd cmd_offset = some (header ++ 115 :: c) := by
  have hblock : ((List.range size).map memory).length = size := by
    rw [List.length_map, List.length_range]
  obtain ⟨front, post, hfront, -, -, hprint, -⟩ :=
    printed_at_200 (m := (List.range size).map memory) (s := 115 :: c) (by omega)
  rw [takeWhile_of_nul_not_mem hnul] at hprint
  obtain ⟨pre, m, h200, hblit, hstore⟩ := header_printed (c := c) post hfront hspace
  have hoffset : cmdOffset headerlength = some pre.length := by
    rw [cmdOffset, if_pos (by omega)]
    exact congrArg some (by omega)
  have hwhole : 0 ∉ header ++ 115 :: c := by
    rw [List.mem_append, not_or]
    exact ⟨hheader, hnul⟩
  refine ⟨pre ++ (header ++ (115 :: c ++ 0 :: post)), pre.length, ?_, ?_⟩
  · rw [postCmd]
    simp only [hprint, hoffset, hblit, hstore, Option.bind_eq_bind, Option.bind_some]
  · rw [← List.append_assoc header]
    exact stringAt_append pre hwhole post

/-- The object of the request holds the string that is printed in steps. -/
theorem rfidInfoSelectWa_text (itoaBuf : CharArray 32) (m_serverIP : ServerIP)
    (sMemcoCd sSiteCd serialnum : CString) (env : CallEnv)
    (h : (rfidInfoSelectContent sMemcoCd.val sSiteCd.val serialnum.val).length + 1 ≤ 200) :
    (rfidInfoSelectWa m_serverIP.val sMemcoCd.val sSiteCd.val serialnum.val env).bind Wa.text =
      passedOn (rfidInfoSelectCmd env.cmd itoaBuf m_serverIP sMemcoCd sSiteCd serialnum) := by
  rw [(rfidInfoSelectCmd_carries env.cmd itoaBuf m_serverIP sMemcoCd sSiteCd serialnum
    h).passedOn_eq]
  have hnul := rfidInfoSelectContent_nul sMemcoCd sSiteCd serialnum
  obtain ⟨c, hc⟩ := rfidInfoSelectContent_begins sMemcoCd sSiteCd serialnum
  rw [hc] at h hnul
  have hroom : 200 + ((115 :: c).length + 1) ≤ 400 := by omega
  obtain ⟨cmd, cmd_offset, hcmd, htext⟩ := postCmd_text env.cmd
    (rfidInfoSelectHeader_nul m_serverIP (115 :: c).length) hnul
    (rfidInfoSelectHeader_length m_serverIP.val (115 :: c).length)
    (rfidInfoSelectHeader_space m_serverIP h) hroom
  rw [rfidInfoSelectWa, hc]
  simp only [hcmd, Option.bind_eq_bind, Option.bind_some]
  exact htext

/-- That of a time sheet does, too; a photograph that is there is not empty. -/
theorem timeSheetInsertStringWa_text (itoaBuf : CharArray 32) (m_serverIP : ServerIP)
    (a : SheetArgs) (outDirectory : String) (env : CallEnv) (h : a.Fits)
    (hphoto : ∀ img, a.imageBuf = some img → img.val ≠ []) :
    (timeSheetInsertStringWa (a.config m_serverIP) a.timeSheet outDirectory env).bind Wa.text =
      passedOn (timeSheetCmd env.cmd itoaBuf m_serverIP a) := by
  rw [(timeSheetCmd_carries env.cmd itoaBuf m_serverIP a h).passedOn_eq]
  have hsize : (if a.timeSheet.m_photo_img = [] then 0
      else base64e2_get_needbufSize a.timeSheet.m_photo_img.length) = a.encoded_buf_sz := by
    rw [SheetArgs.timeSheet, SheetArgs.encoded_buf_sz]
    cases himg : a.imageBuf with
    | none => rfl
    | some img => exact if_neg (hphoto img himg)
  have hnul := body_nul a
  have hroom := body_room a h
  have hspace := timeSheetHeader_space m_serverIP a h
  have hcontent := a.content_config m_serverIP
  obtain ⟨c, hc⟩ := body_begins a
  rw [hc] at hnul hroom hspace hcontent
  obtain ⟨cmd, cmd_offset, hcmd, htext⟩ := postCmd_text env.cmd
    (timeSheetHeader_nul m_serverIP (115 :: c).length) hnul
    (timeSheetHeader_length m_serverIP.val (115 :: c).length) hspace hroom
  have hconfig : postCmd env.cmd (400 + a.encoded_buf_sz)
      ((a.config m_serverIP).headerlength (115 :: c).length)
      ((a.config m_serverIP).header (115 :: c).length) (115 :: c) = some (cmd, cmd_offset) := hcmd
  rw [hc]
  simp only [timeSheetInsertStringWa, hsize, hcontent, hconfig, Option.bind_eq_bind,
    Option.bind_some, htext]
  exact htext

/-! ## Both requests -/

/-- Both requests pass on the header immediately followed by the body, when what is printed of
the body fits in 200 bytes with its NUL. -/
theorem commands_carry_bodies (memory : Nat → UInt8) (itoaBuf : CharArray 32)
    (m_serverIP : ServerIP) (sMemcoCd sSiteCd serialnum : CString) (a : SheetArgs)
    (hselect : (rfidInfoSelectContent sMemcoCd.val sSiteCd.val serialnum.val).length + 1 ≤ 200)
    (hsheet : a.format.length + 1 ≤ 200) :
    Carries (rfidInfoSelectCmd memory itoaBuf m_serverIP sMemcoCd sSiteCd serialnum)
        (rfidInfoSelectHeader m_serverIP.val)
        (rfidInfoSelectContent sMemcoCd.val sSiteCd.val serialnum.val) ∧
      Carries (timeSheetCmd memory itoaBuf m_serverIP a) (SheetArgs.header m_serverIP.val)
        a.body :=
  ⟨rfidInfoSelectCmd_carries memory itoaBuf m_serverIP sMemcoCd sSiteCd serialnum hselect,
    timeSheetCmd_carries memory itoaBuf m_serverIP a (fits_of_format a hsheet)⟩

/-- A worker's entry with a photograph of one byte. -/
def entryArgs : SheetArgs where
  sMemcoCd := ⟨ascii "MC00000003", by decide⟩
  sSiteCd := ⟨ascii "ST00000005", by decide⟩
  sLabNo := ⟨ascii "LAB001", by decide⟩
  cInOut := 73
  sGateNo := ⟨ascii "6", by decide⟩
  sGateLoc := ⟨ascii "0001", by decide⟩
  cUtype := 76
  sInTime := ⟨ascii "2015-01-05 08:00:00", by decide⟩
  imageBuf := some ⟨[255], by decide⟩

def gateIP : ServerIP := ⟨ascii "10.9.0.2", by decide⟩

theorem commands_carry_bodies_entry :
    Carries (rfidInfoSelectCmd (fun _ => 0) ⟨List.replicate 32 0, rfl⟩ gateIP entryArgs.sMemcoCd
        entryArgs.sSiteCd entryArgs.sLabNo) (rfidInfoSelectHeader gateIP.val)
        (rfidInfoSelectContent entryArgs.sMemcoCd.val entryArgs.sSiteCd.val
          entryArgs.sLabNo.val) ∧
      Carries (timeSheetCmd (fun _ => 0) ⟨List.replicate 32 0, rfl⟩ gateIP entryArgs)
        (SheetArgs.header gateIP.val) entryArgs.body :=
  commands_carry_bodies (fun _ => 0) ⟨List.replicate 32 0, rfl⟩ gateIP entryArgs.sMemcoCd
    entryArgs.sSiteCd entryArgs.sLabNo entryArgs (by decide +kernel) (by decide +kernel)

end WebService

end Acu.Web
