import Acu.Web.Api

/-!
# Downloading the employee database

`RfidInfoSelectAll` writes the body of its reply into a file while it arrives.
The file is opened, and so truncated, before anything of the reply is read.
-/

namespace Acu.Web

open Acu.Core Acu.Core.CMemory

/-- History only: the body of a reply that was parsed to its end. -/
inductive Note where
  | served (body : Bytes)
  deriving DecidableEq, Repr

abbrev RCVHEADERBUFSIZE : Nat := 1024

theorem zeros_length : (List.replicate RCVHEADERBUFSIZE (0 : UInt8)).length = RCVHEADERBUFSIZE :=
  List.length_replicate

/-- The parsed header, with the buffer its text was cut in. -/
structure Header where
  buf : Bytes
  startContent : Nat
  contentLength : Int
  readByteContent : Int
  deriving DecidableEq, Repr

/-- `parsingHeader`; `stack` is what the buffer held before. A missing blank, header field
or carriage return is followed through a null pointer. -/
def parsingHeader (stack : CharArray RCVHEADERBUFSIZE) : Recv → Option (Option Header)
  | .closed | .error => some none
  | .data bytes => do
      let readlen := bytes.length
      if readlen = 0 then some none
      else if RCVHEADERBUFSIZE - 1 < readlen then none
      else
        let buf := bytes ++ stack.val.drop readlen
        let p ← ← strstr buf 0 (ascii " ")
        let e ← ← strstr buf (p + 1) (ascii " ")
        let buf ← store buf e 0
        let retVal := atoi (← stringAt buf (p + 1))
        if retVal ≠ 200 then some none
        else
          let p ← ← strstr buf (e + 1) (ascii "\nContent-Length:")
          let p := p + 17
          let e ← ← strstr buf p (ascii "\r")
          let buf ← store buf e 0
          let contentLength := atoi (← stringAt buf p)
          let startContent := e + 4
          some (some ⟨buf, startContent, contentLength, (readlen : Int) - startContent⟩)

/-- A pointer difference used as an index. -/
def index? (i : Int) : Option Nat := if 0 ≤ i then some i.toNat else none

/-- `memcpy` or `recv` of `bytes` into the block at `at_`. -/
def blit (buf : Bytes) (at_ : Nat) (bytes : Bytes) : Option Bytes :=
  if at_ + bytes.length ≤ buf.length then
    some (buf.take at_ ++ bytes ++ buf.drop (at_ + bytes.length))
  else none

theorem blit_behind (front old new back : Bytes) (h : old.length = new.length) :
    blit (front ++ (old ++ back)) front.length new = some (front ++ (new ++ back)) := by
  have hbound : front.length + new.length ≤ (front ++ (old ++ back)).length := by
    simp
    omega
  rw [blit, if_pos hbound, List.take_left, ← h, List.drop_length_add_append, List.drop_left,
    List.append_assoc]

/-- `readlen = recv(m_sock, buf + readByteContent, nleaved, 0)`: the block and `readlen`.
A negative count is a huge one. -/
def recvInto (buf : Bytes) (readByteContent nleaved : Int) : Recv → Option (Bytes × Int)
  | .closed => some (buf, 0)
  | .error => some (buf, -1)
  | .data bytes => do
      if 0 ≤ nleaved ∧ nleaved < bytes.length then none
      else
        let at_ ← index? readByteContent
        let buf ← blit buf at_ bytes
        some (buf, bytes.length)

namespace RfidInfoSelectAll

variable (m_filename : String)

/-- `while(nleaved)`: each piece is terminated in place and written as a C string. An error
counts as minus one byte. `body` is history. -/
def bodyLoop : List Recv → Bytes → Int → Int → Bytes → FileProg String Note Bytes
  | [], _, _, nleaved, body => if nleaved = 0 then pure body else .stuck
  | r :: rs, buf, readByteContent, nleaved, body =>
      if nleaved = 0 then pure body
      else do
        let (buf, readlen) ← .ofOption (recvInto buf readByteContent nleaved r)
        let stop ← .ofOption (index? (readByteContent + readlen))
        let buf ← .ofOption (store buf stop 0)
        let start ← .ofOption (index? readByteContent)
        let piece ← .ofOption (stringAt buf start)
        .emit (.append m_filename piece)
        bodyLoop rs buf (readByteContent + readlen) (nleaved - readlen)
          (body ++ match r with | .data bytes => bytes | _ => [])

/-- The reading of the contents into a fresh block of `contentLength + 1` bytes, which held
`heap` before. -/
def contents (h : Header) (heap : Nat → UInt8) (rs : List Recv) : FileProg String Note Bytes := do
  let size ← .ofOption (index? (h.contentLength + 1))
  let count ← .ofOption (index? h.readByteContent)
  let first ← .ofOption (load h.buf h.startContent count)
  let buf ← .ofOption (blit ((List.range size).map heap) 0 first)
  bodyLoop m_filename rs buf h.readByteContent (h.contentLength - h.readByteContent) first

/-- `RfidInfoSelectAll_WebApi::parsing()`. -/
def parsing (stack : CharArray RCVHEADERBUFSIZE) (heap : Nat → UInt8) :
    List Recv → FileProg String Note Bool
  | [] => do
      .emit (.create m_filename)
      .stuck
  | r :: rs => do
      .emit (.create m_filename)
      match ← .ofOption (parsingHeader stack r) with
      | none => pure false
      | some h =>
          let stop ← .ofOption (index? (h.startContent + h.readByteContent))
          let buf ← .ofOption (store h.buf stop 0)
          let piece ← .ofOption (stringAt buf h.startContent)
          .emit (.append m_filename piece)
          let body ← contents m_filename { h with buf := buf } heap rs
          .emit (.note (.served body))
          pure true

end RfidInfoSelectAll

/-- What one download depends on beside its arguments: the system calls and the memory its
buffers held before. -/
structure DownloadEnv where
  sys : SysCalls
  stack : CharArray RCVHEADERBUFSIZE
  heap : Nat → UInt8

/-- The `sprintf` of the request into `char cmd[300]`. -/
def selectAllCmd (m_serverIP sMemcoCd sSiteCd : Bytes) : Option Bytes :=
  let text := ascii "GET /WebService/ItlogService.asmx/RfidInfoSelect?sMemcoCd=" ++ sMemcoCd ++
    ascii "&sSiteCd=" ++ sSiteCd ++ ascii "&sUtype=&sMode=A&sSearchValue= HTTP/1.1\r\nHost: " ++
    m_serverIP ++ ascii "\r\n\r\n"
  if text.length < 300 then some (text ++ [0]) else none

/-- `request_RfidInfoSelectAll`, synchronous: `.error` is a thrown exception. -/
def request_RfidInfoSelectAll (m_serverIP sMemcoCd sSiteCd : Bytes) (env : DownloadEnv)
    (outFilename : String) : FileProg String Note (Except WebExcept Unit) := do
  let cmd ← .ofOption (selectAllCmd m_serverIP sMemcoCd sSiteCd)
  let status ← WebApi.run cmd 0 env.sys
    (RfidInfoSelectAll.parsing outFilename env.stack env.heap env.sys.recvs)
  match THROW_EXCEPTION status with
  | some e => pure (.error e)
  | none => pure (.ok ())

/-! ## What a download does to the files -/

/-- The request comes as far as `parsing()`, which opens the file first of all. -/
def ReachesParsing (m_serverIP sMemcoCd sSiteCd : Bytes) (sys : SysCalls) : Prop :=
  ((selectAllCmd m_serverIP sMemcoCd sSiteCd).bind fun cmd => WebApi.beforeParsing cmd 0 sys) =
    some .parsing

instance (m_serverIP sMemcoCd sSiteCd : Bytes) (sys : SysCalls) :
    Decidable (ReachesParsing m_serverIP sMemcoCd sSiteCd sys) :=
  inferInstanceAs (Decidable (_ = _))

/-- Nothing but the file `path` is touched. -/
def OnlyTouches (path : String) (e : FileEvent String Note) : Prop :=
  ∀ p, p ≠ path → p ∉ e.touched

namespace RfidInfoSelectAll

variable (m_filename : String)

theorem onlyTouches_create : OnlyTouches m_filename (.create m_filename) := by
  intro p hp
  simpa [FileEvent.touched] using hp

theorem onlyTouches_append (bytes : Bytes) :
    OnlyTouches m_filename (.append m_filename bytes) := by
  intro p hp
  simpa [FileEvent.touched] using hp

theorem onlyTouches_note (n : Note) : OnlyTouches m_filename (.note n) := by
  intro p _
  simp [FileEvent.touched]

theorem bodyLoop_emits (rs : List Recv) (buf : Bytes) (readByteContent nleaved : Int)
    (body : Bytes) :
    FileProg.Emits (OnlyTouches m_filename)
      (bodyLoop m_filename rs buf readByteContent nleaved body) := by
  induction rs generalizing buf readByteContent nleaved body with
  | nil =>
      unfold bodyLoop
      split
      · exact FileProg.Emits.pure body
      · exact FileProg.Emits.stuck
  | cons r rs ih =>
      unfold bodyLoop
      split
      · exact FileProg.Emits.pure body
      refine FileProg.Emits.bind (FileProg.Emits.ofOption _) fun ⟨buf, readlen⟩ => ?_
      refine FileProg.Emits.bind (FileProg.Emits.ofOption _) fun stop => ?_
      refine FileProg.Emits.bind (FileProg.Emits.ofOption _) fun buf => ?_
      refine FileProg.Emits.bind (FileProg.Emits.ofOption _) fun start => ?_
      refine FileProg.Emits.bind (FileProg.Emits.ofOption _) fun piece => ?_
      refine FileProg.Emits.bind (FileProg.Emits.emit (onlyTouches_append m_filename piece)) ?_
      exact fun _ => ih _ _ _ _

theorem contents_emits (h : Header) (heap : Nat → UInt8) (rs : List Recv) :
    FileProg.Emits (OnlyTouches m_filename) (contents m_filename h heap rs) := by
  refine FileProg.Emits.bind (FileProg.Emits.ofOption _) fun size => ?_
  refine FileProg.Emits.bind (FileProg.Emits.ofOption _) fun count => ?_
  refine FileProg.Emits.bind (FileProg.Emits.ofOption _) fun first => ?_
  refine FileProg.Emits.bind (FileProg.Emits.ofOption _) fun buf => ?_
  exact bodyLoop_emits m_filename _ _ _ _ _

theorem parsing_emits (stack : CharArray RCVHEADERBUFSIZE) (heap : Nat → UInt8)
    (rs : List Recv) :
    FileProg.Emits (OnlyTouches m_filename) (parsing m_filename stack heap rs) := by
  cases rs with
  | nil =>
      exact FileProg.Emits.bind (FileProg.Emits.emit (onlyTouches_create m_filename))
        fun _ => FileProg.Emits.stuck
  | cons r rs =>
      refine FileProg.Emits.bind (FileProg.Emits.emit (onlyTouches_create m_filename)) fun _ => ?_
      refine FileProg.Emits.bind (FileProg.Emits.ofOption _) fun header => ?_
      cases header with
      | none => exact FileProg.Emits.pure false
      | some h =>
          refine FileProg.Emits.bind (FileProg.Emits.ofOption _) fun stop => ?_
          refine FileProg.Emits.bind (FileProg.Emits.ofOption _) fun buf => ?_
          refine FileProg.Emits.bind (FileProg.Emits.ofOption _) fun piece => ?_
          refine FileProg.Emits.bind
            (FileProg.Emits.emit (onlyTouches_append m_filename piece)) fun _ => ?_
          refine FileProg.Emits.bind (contents_emits m_filename _ heap rs) fun body => ?_
          refine FileProg.Emits.bind
            (FileProg.Emits.emit (onlyTouches_note m_filename _)) fun _ => ?_
          exact FileProg.Emits.pure true

/-- The file is truncated before anything of the reply is looked at. -/
theorem parsing_creates (stack : CharArray RCVHEADERBUFSIZE) (heap : Nat → UInt8)
    (rs : List Recv) (d : Disk String) :
    ∃ es, (parsing m_filename stack heap rs d).events = .create m_filename :: es := by
  cases rs with
  | nil => exact ⟨_, rfl⟩
  | cons r rs => exact ⟨_, rfl⟩

end RfidInfoSelectAll

section Request

variable (m_serverIP sMemcoCd sSiteCd : Bytes) (env : DownloadEnv) (outFilename : String)

theorem request_RfidInfoSelectAll_emits :
    FileProg.Emits (OnlyTouches outFilename)
      (request_RfidInfoSelectAll m_serverIP sMemcoCd sSiteCd env outFilename) := by
  refine FileProg.Emits.bind (FileProg.Emits.ofOption _) fun cmd => ?_
  refine FileProg.Emits.bind
    (WebApi.run_emits cmd 0 env.sys (RfidInfoSelectAll.parsing_emits outFilename _ _ _)) ?_
  intro status
  split
  · exact FileProg.Emits.pure _
  · exact FileProg.Emits.pure _

/-- The status becomes the exception without any further file event. -/
theorem request_RfidInfoSelectAll_events {cmd : Bytes}
    (hcmd : selectAllCmd m_serverIP sMemcoCd sSiteCd = some cmd) (d : Disk String) :
    (request_RfidInfoSelectAll m_serverIP sMemcoCd sSiteCd env outFilename d).events =
      (WebApi.run cmd 0 env.sys
        (RfidInfoSelectAll.parsing outFilename env.stack env.heap env.sys.recvs) d).events := by
  rw [request_RfidInfoSelectAll, hcmd, FileProg.ofOption_some, FileProg.pure_bind]
  cases hv : (WebApi.run cmd 0 env.sys
      (RfidInfoSelectAll.parsing outFilename env.stack env.heap env.sys.recvs) d).value with
  | none => rw [FileProg.bind_of_none _ hv]
  | some status =>
      rw [FileProg.bind_of_some _ hv]
      cases THROW_EXCEPTION status with
      | none => exact List.append_nil _
      | some e => exact List.append_nil _

/-- A request that stops before its parser leaves the disk alone and throws by its status. -/
theorem request_RfidInfoSelectAll_stopped {cmd : Bytes} {m_status : Ret}
    (hcmd : selectAllCmd m_serverIP sMemcoCd sSiteCd = some cmd)
    (hs : WebApi.beforeParsing cmd 0 env.sys = some (.stopped m_status)) (d : Disk String) :
    request_RfidInfoSelectAll m_serverIP sMemcoCd sSiteCd env outFilename d =
      ⟨[], some (match THROW_EXCEPTION m_status with | some e => .error e | none => .ok ())⟩ := by
  rw [request_RfidInfoSelectAll, hcmd, FileProg.ofOption_some, FileProg.pure_bind]
  have hrun := WebApi.run_stopped hs
    (RfidInfoSelectAll.parsing outFilename env.stack env.heap env.sys.recvs) d
  rw [FileProg.bind_of_some _ (congrArg Observed.value hrun), hrun]
  cases THROW_EXCEPTION m_status with
  | none => rfl
  | some e => rfl

/-- A request that does not come to its parser leaves the disk alone. -/
theorem request_RfidInfoSelectAll_of_not_reaches
    (h : ¬ ReachesParsing m_serverIP sMemcoCd sSiteCd env.sys) (d : Disk String) :
    (request_RfidInfoSelectAll m_serverIP sMemcoCd sSiteCd env outFilename d).events = [] := by
  cases hcmd : selectAllCmd m_serverIP sMemcoCd sSiteCd with
  | none => rw [request_RfidInfoSelectAll, hcmd, FileProg.ofOption_none, FileProg.stuck_bind]; rfl
  | some cmd =>
      rw [request_RfidInfoSelectAll_events _ _ _ _ _ hcmd]
      cases hs : WebApi.beforeParsing cmd 0 env.sys with
      | none => rw [WebApi.run_blocked hs]
      | some stage =>
          cases stage with
          | stopped m_status => rw [WebApi.run_stopped hs]
          | parsing => exact absurd (by rw [ReachesParsing, hcmd, Option.bind_some, hs]) h

/-- A request that comes to its parser first truncates the file. -/
theorem request_RfidInfoSelectAll_creates
    (h : ReachesParsing m_serverIP sMemcoCd sSiteCd env.sys) (d : Disk String) :
    ∃ es, (request_RfidInfoSelectAll m_serverIP sMemcoCd sSiteCd env outFilename d).events =
      .create outFilename :: es := by
  obtain ⟨cmd, hcmd, hs⟩ := Option.bind_eq_some_iff.mp h
  rw [request_RfidInfoSelectAll_events _ _ _ _ _ hcmd, WebApi.run_parsing hs]
  exact RfidInfoSelectAll.parsing_creates outFilename _ _ _ d

end Request

end Acu.Web
