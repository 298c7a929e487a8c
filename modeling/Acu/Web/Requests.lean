import Acu.Attendance.Record
import Acu.Web.Replies

/-!
# The synchronous requests

Every request builds its command, has `WebApi::run` carry it out, and then makes a
value or an exception of the status. They differ in the command, in `parsing()`, in
the result field they read and in what they leave in a file when they fail.
-/

namespace Acu.Web

open Acu.Core Acu.Core.CMemory Attendance

/-- What a call depends on beside its arguments: the system calls, and what the memory held
that it does not write: the header buffer, the blocks of the command and of the contents, the
member `m_ret`, and what stands behind the block of a file. -/
structure CallEnv where
  sys : SysCalls
  stack : CharArray RCVHEADERBUFSIZE
  cmd : Nat → UInt8
  heap : Nat → UInt8
  m_ret : Bool
  behind : Bytes

/-- What the result field holds: `m_ret`, a block `m_pRet` points to, or `m_pRet` as it was
made, a pointer to `m_ret`. -/
inductive Value where
  | m_ret (b : Bool)
  | block (bytes : Bytes)
  | member
  | void
  deriving DecidableEq, Repr

/-- The object of one call, up to where its request is about to use the result: the result
field as `run` leaves it, whether the request reads it, and what it does to files when it
fails. -/
structure Wa where
  m_cmd : Bytes
  m_cmd_offset : Nat
  parsing : FileProg String Note Bool
  result : Value
  reads : Bool
  onFailure : List (FileEvent String Note)

/-- What a request does with the object, in order. -/
inductive WaEvent where
  | delete
  | readResult
  deriving DecidableEq, Repr

/-- How a call came back. -/
structure Returned where
  wa : List WaEvent
  value : Except WebExcept Value

/-- What a request gives back for a status: its exception, or what the result field holds. -/
def outcome {α : Type} (status : Ret) (v : α) : Except WebExcept α :=
  match THROW_EXCEPTION status with
  | some e => .error e
  | none => .ok v

namespace Wa

variable (w : Wa)

/-- `ret = wa->m_ret` or `ret = (char*)wa->m_pRet`, then `delete wa`. -/
def takeResult : List WaEvent := if w.reads then [.readResult, .delete] else [.delete]

/-- What the request makes of the status. One that throws nothing goes on behind the macro. -/
def returned (status : Ret) : Returned :=
  if status ≠ .RET_SUCCESS then
    match THROW_EXCEPTION status with
    | some e => ⟨[.delete], .error e⟩
    | none => ⟨.delete :: w.takeResult, .ok w.result⟩
  else ⟨w.takeResult, .ok w.result⟩

theorem returned_value (status : Ret) :
    (w.returned status).value = outcome status w.result := by
  cases status <;> rfl

def finish (status : Ret) : FileProg String Note Returned :=
  fun _ => ⟨if status ≠ .RET_SUCCESS then w.onFailure else [], some (w.returned status)⟩

/-- `processCmd` and what follows it. -/
def request (sys : SysCalls) : FileProg String Note Returned := do
  let status ← WebApi.run w.m_cmd w.m_cmd_offset sys w.parsing
  w.finish status

/-- An object of `WebApi` or of a class that leaves its `parsing()` as it is. -/
def ofBool (cmd : Bytes) (cmd_offset : Nat) (env : CallEnv) : Wa where
  m_cmd := cmd
  m_cmd_offset := cmd_offset
  parsing := .ofOption ((WebApi.parsing env.stack env.sys.recvs).map Option.isSome)
  result := .m_ret ((WebApi.parsing env.stack env.sys.recvs).join.getD env.m_ret)
  reads := true
  onFailure := []

/-- An object whose `parsing()` leaves a block. -/
def ofBlock (cmd : Bytes) (parsed : Option (Option Bytes)) (cmd_offset : Nat) : Wa where
  m_cmd := cmd
  m_cmd_offset := cmd_offset
  parsing := .ofOption (parsed.map Option.isSome)
  result := (parsed.join.map Value.block).getD .member
  reads := true
  onFailure := []

end Wa

/-! ## Commands -/

/-- `sprintf` of the text into `new char[size]`. -/
def sprintfCmd (size : Nat) (text : Bytes) : Option Bytes :=
  if text.length < size then some (text ++ [0]) else none

/-- `200 - headerlength`, within the block. -/
def cmdOffset (headerlength : Nat) : Option Nat :=
  if headerlength ≤ 200 then some (200 - headerlength) else none

/-- `sprintf` of the content to `cmd + 200` and of the header in front of it; the NUL behind the
header is overwritten with the first letter of the content. -/
def postCmd (memory : Nat → UInt8) (size headerlength : Nat) (header content : Bytes) :
    Option (Bytes × Nat) := do
  let cmd ← blit ((List.range size).map memory) 200 (content ++ [0])
  let cmd_offset ← cmdOffset headerlength
  let cmd ← blit cmd cmd_offset (header ++ [0])
  let cmd ← store cmd 200 115
  some (cmd, cmd_offset)

namespace WebService

variable (m_serverIP : Bytes)

def codeDataSelectText (sMemcoCd sSiteCd sDvLoc : Bytes) : Bytes :=
  ascii "GET /WebService/ItlogService.asmx/CodeDataSelect?sMemcoCd=" ++ sMemcoCd ++
    ascii "&sSiteCd=" ++ sSiteCd ++ ascii "&sType=T&sGroupCd=0007'+AND+CODE='" ++ sDvLoc ++
    ascii " HTTP/1.1\r\nHost: " ++ m_serverIP ++ ascii "\r\n\r\n"

def getNetInfoText : Bytes :=
  ascii "GET /WebService/ItlogService.asmx/GetNetInfo? HTTP/1.1\r\nHost: " ++ m_serverIP ++
    ascii "\r\n\r\n"

def serverTimeGetText : Bytes :=
  ascii "GET /WebService/ItlogService.asmx/ServerTimeGet? HTTP/1.1\r\nHost: " ++ m_serverIP ++
    ascii "\r\n\r\n"

def statusUpdateText (sGateType sSiteCd sDvLoc sdvNo sIpAddress sMacAddress : Bytes) : Bytes :=
  ascii "GET /WebService/ItlogService.asmx/Status_Update?sMemcoCd=" ++ sGateType ++
    ascii "&sSiteCd=" ++ sSiteCd ++ ascii "&sGateCode=" ++ sDvLoc ++ ascii "&sGateNo=" ++ sdvNo ++
    ascii "&sGateIp=" ++ sIpAddress ++ ascii "&sGateMac=" ++ sMacAddress ++
    ascii " HTTP/1.1\r\nHost: " ++ m_serverIP ++ ascii "\r\n\r\n"

def rfidInfoSelectContent (sMemcoCd sSiteCd serialnum : Bytes) : Bytes :=
  ascii "sMemcoCd=" ++ sMemcoCd ++ ascii "&sSiteCd=" ++ sSiteCd ++
    ascii "&sUtype=R&sMode=&sSearchValue=RFID_CAR='" ++ serialnum

def rfidInfoSelectHeader (contentlen : Nat) : Bytes :=
  ascii "POST /WebService/ItlogService.asmx/RfidInfoSelect HTTP/1.1\r\nHost: " ++ m_serverIP ++
    ascii "\r\nContent-Type: application/x-www-form-urlencoded\r\nContent-Length: " ++
    digits 10 contentlen ++ ascii "\r\n\r\n"

/-- `base64e2_get_needbufSize`. -/
def base64e2_get_needbufSize (size : Nat) : Nat :=
  (if size % 3 ≠ 0 then size / 3 * 4 + 4 else size / 3 * 4) + 1

/-! ## Requests -/

/-- A request whose command cannot be built has no outcome. -/
def perform (env : CallEnv) : Option Wa → FileProg String Note Returned
  | none => .stuck
  | some w => w.request env.sys

def codeDataSelectWa (sMemcoCd sSiteCd sDvLoc : Bytes) (env : CallEnv) : Option Wa := do
  let cmd ← sprintfCmd 300 (codeDataSelectText m_serverIP sMemcoCd sSiteCd sDvLoc)
  some (.ofBlock cmd (CodeDataSelect.parsing env.stack env.heap env.sys.recvs) 0)

def getNetInfoWa (env : CallEnv) : Option Wa := do
  let cmd ← sprintfCmd 100 (getNetInfoText m_serverIP)
  some (.ofBool cmd 0 env)

def rfidInfoSelectAllWa (sMemcoCd sSiteCd : Bytes) (outFilename : String) (env : CallEnv) :
    Option Wa := do
  let cmd ← selectAllCmd m_serverIP sMemcoCd sSiteCd
  some {
    m_cmd := cmd
    m_cmd_offset := 0
    parsing := RfidInfoSelectAll.parsing outFilename env.stack env.heap env.sys.recvs
    result := .void
    reads := false
    onFailure := [] }

def rfidInfoSelectWa (sMemcoCd sSiteCd serialnum : Bytes) (env : CallEnv) : Option Wa := do
  let content := rfidInfoSelectContent sMemcoCd sSiteCd serialnum
  let headerlength := 137 + m_serverIP.length + (digits 10 content.length).length
  let (cmd, cmd_offset) ← postCmd env.cmd 400 headerlength
    (rfidInfoSelectHeader m_serverIP content.length) content
  some (.ofBlock cmd (RfidInfoSelect.parsing env.stack env.heap env.sys.recvs) cmd_offset)

def serverTimeGetWa (env : CallEnv) : Option Wa := do
  let cmd ← sprintfCmd 300 (serverTimeGetText m_serverIP)
  some (.ofBlock cmd (ServerTimeGet.parsing env.stack env.sys.recvs) 0)

def statusUpdateWa (sGateType sSiteCd sDvLoc sdvNo sIpAddress sMacAddress : Bytes)
    (env : CallEnv) : Option Wa := do
  let cmd ← sprintfCmd 400
    (statusUpdateText m_serverIP sGateType sSiteCd sDvLoc sdvNo sIpAddress sMacAddress)
  some (.ofBool cmd 0 env)

/-- The fields, the time and the photograph of `ts`; a missing photograph is an empty one. The
command is written to `outDirectory/sInTime` when the request fails. -/
def timeSheetInsertStringWa (cfg : Config) (ts : TimeSheet) (outDirectory : String)
    (env : CallEnv) : Option Wa := do
  let encoded_buf_sz :=
    if ts.m_photo_img = [] then 0 else base64e2_get_needbufSize ts.m_photo_img.length
  let content := cfg.content ts
  let (cmd, cmd_offset) ← postCmd env.cmd (400 + encoded_buf_sz) (cfg.headerlength content.length)
    (cfg.header content.length) content
  let filename := outDirectory ++ "/" ++ String.ofList (ts.m_time.map fun c => Char.ofNat c.toNat)
  let text ← stringAt cmd cmd_offset
  some { Wa.ofBool cmd cmd_offset env with onFailure := [.create filename, .append filename text] }

/-- The file is read into a block of its size, without a NUL. -/
def sendFileWa (filename : String) (env : CallEnv) (d : Disk String) : Option Wa := do
  let cmd ← d filename
  some (.ofBool (cmd ++ env.behind) 0 env)

def request_CodeDataSelect (sMemcoCd sSiteCd sDvLoc : Bytes) (env : CallEnv) :
    FileProg String Note Returned :=
  perform env (codeDataSelectWa m_serverIP sMemcoCd sSiteCd sDvLoc env)

def request_GetNetInfo (env : CallEnv) : FileProg String Note Returned :=
  perform env (getNetInfoWa m_serverIP env)

def request_RfidInfoSelectAll (sMemcoCd sSiteCd : Bytes) (outFilename : String) (env : CallEnv) :
    FileProg String Note Returned :=
  perform env (rfidInfoSelectAllWa m_serverIP sMemcoCd sSiteCd outFilename env)

def request_RfidInfoSelect (sMemcoCd sSiteCd serialnum : Bytes) (env : CallEnv) :
    FileProg String Note Returned :=
  perform env (rfidInfoSelectWa m_serverIP sMemcoCd sSiteCd serialnum env)

def request_ServerTimeGet (env : CallEnv) : FileProg String Note Returned :=
  perform env (serverTimeGetWa m_serverIP env)

def request_StatusUpdate (sGateType sSiteCd sDvLoc sdvNo sIpAddress sMacAddress : Bytes)
    (env : CallEnv) : FileProg String Note Returned :=
  perform env
    (statusUpdateWa m_serverIP sGateType sSiteCd sDvLoc sdvNo sIpAddress sMacAddress env)

def request_TimeSheetInsertString (cfg : Config) (ts : TimeSheet) (outDirectory : String)
    (env : CallEnv) : FileProg String Note Returned :=
  perform env (timeSheetInsertStringWa cfg ts outDirectory env)

def request_SendFile (filename : String) (env : CallEnv) : FileProg String Note Returned :=
  fun d => perform env (sendFileWa filename env d) d

end WebService

end Acu.Web
