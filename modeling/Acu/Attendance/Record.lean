import Acu.Tools.Base64

/-!
# Time sheets

The record of one entry through the gate, and the request that carries it to the
server, which is also the text of the file it is saved in.
-/

namespace Acu.Attendance

open Acu.Core Acu.Core.CMemory Tools

/-- The local time as `localtime_r` gives it. -/
structure Tm where
  tm_year : Int
  tm_mon : Int
  tm_mday : Int
  tm_hour : Int
  tm_min : Int
  tm_sec : Int
  deriving DecidableEq, Repr

/-- `"%d-%02d-%02d %02d:%02d:%02d"`. -/
def Tm.text (tm : Tm) : Bytes :=
  decimal (tm.tm_year + 1900) ++ ascii "-" ++ decimalZero 2 (tm.tm_mon + 1) ++ ascii "-" ++
    decimalZero 2 tm.tm_mday ++ ascii " " ++ decimalZero 2 tm.tm_hour ++ ascii ":" ++
    decimalZero 2 tm.tm_min ++ ascii ":" ++ decimalZero 2 tm.tm_sec

structure TimeSheet where
  m_lab_no : Bytes
  m_utype : UInt8
  m_time : Bytes
  m_photo_img : Bytes
  deriving DecidableEq, Repr

/-- `TimeSheet(lab_no, utype, img, img_sz)`, made at the local time `tm`. -/
def TimeSheet.new (tm : Tm) (lab_no : Bytes) (utype : UInt8) (img : Bytes) : TimeSheet :=
  ⟨lab_no, utype, tm.text, img⟩

/-- What the manager takes from the settings, with the address the web service holds. -/
structure Config where
  m_sMemcoCd : Bytes
  m_sSiteCd : Bytes
  m_sDvLoc : Bytes
  m_sDvNo : Bytes
  m_cInOut : UInt8
  m_serverIP : Bytes

namespace Config

variable (cfg : Config)

/-- The `sprintf` of the fields, up to the NUL that a missing `%c` would write. -/
def fields (ts : TimeSheet) : Bytes :=
  (ascii "sMemcoCd=" ++ cfg.m_sMemcoCd ++ ascii "&sSiteCd=" ++ cfg.m_sSiteCd ++
    ascii "&sLabNo=" ++ ts.m_lab_no ++ ascii "&sInOut=" ++ [cfg.m_cInOut] ++
    ascii "&sGateNo=" ++ cfg.m_sDvNo ++ ascii "&sGateLoc=" ++ cfg.m_sDvLoc ++
    ascii "&sUtype=" ++ [ts.m_utype] ++ ascii "&sAttendGb=&sEventfunctionkey=&sInTime=" ++
    ts.m_time ++ ascii "&sPhotoImage=").takeWhile (· ≠ 0)

def content (ts : TimeSheet) : Bytes := cfg.fields ts ++ Base64.base64e2_http ts.m_photo_img

/-- The `sprintf` of the header in front of a content of the given length. -/
def header (contentlen : Nat) : Bytes :=
  ascii "POST /WebService/ItlogService.asmx/TimeSheetInsertString HTTP/1.1\r\nHost: " ++
    cfg.m_serverIP ++
    ascii "\r\nContent-Type: application/x-www-form-urlencoded\r\nContent-Length: " ++
    digits 10 contentlen ++ ascii "\r\n\r\n"

/-- `headerlength`, by which the start of the header is set. -/
def headerlength (contentlen : Nat) : Nat :=
  144 + cfg.m_serverIP.length + (digits 10 contentlen).length

/-- The header fills the space up to the content, so that the two read as one text. -/
theorem length_header (contentlen : Nat) :
    (cfg.header contentlen).length = cfg.headerlength contentlen := by
  have h₁ : (ascii
      "POST /WebService/ItlogService.asmx/TimeSheetInsertString HTTP/1.1\r\nHost: ").length =
      73 := by
    decide
  have h₂ : (ascii
      "\r\nContent-Type: application/x-www-form-urlencoded\r\nContent-Length: ").length = 67 := by
    decide
  have h₃ : (ascii "\r\n\r\n").length = 4 := by decide
  simp only [header, headerlength, List.length_append, h₁, h₂, h₃]
  omega

/-- The text at `cmd + cmd_offset`. -/
def requestText (ts : TimeSheet) : Bytes := cfg.header (cfg.content ts).length ++ cfg.content ts

end Config

/-- The default settings. -/
def gateConfig : Config where
  m_sMemcoCd := ascii "MC00000003"
  m_sSiteCd := ascii "ST00000005"
  m_sDvLoc := ascii "0001"
  m_sDvNo := ascii "6"
  m_cInOut := 73
  m_serverIP := ascii "10.9.0.2"

end Acu.Attendance
