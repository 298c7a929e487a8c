import Acu.Core.Disk

/-!
# One request to the server

`WebApi::run` as a function of the results of its system calls, the status it
leaves, and the exception a synchronous request makes of that status. A script
that ends before the call does is a call that never returns.
-/

namespace Acu.Web

open Acu.Core Acu.Core.CMemory

inductive Ret where
  | RET_SUCCESS
  | RET_CREATE_SOCKET_FAIL
  | RET_CONNECT_FAIL
  | RET_SEND_CMD_FAIL
  | RET_FCNTL_FAIL
  | RET_POLL_FAIL
  | RET_POLL_TIMEOUT
  | RET_PARSING_FAIL
  deriving DecidableEq, Repr

inductive WebExcept where
  | EXCEPTION_CREATE_SOCKET
  | EXCEPTION_CONNECT
  | EXCEPTION_SEND_COMMAND
  | EXCEPTION_POLL_FAIL
  | EXCEPTION_POLL_TIMEOUT
  | EXCEPTION_PARSING_FAIL
  deriving DecidableEq, Repr

/-- The `switch` of the macro has no default: a status it does not list throws nothing. -/
def THROW_EXCEPTION : Ret → Option WebExcept
  | .RET_CREATE_SOCKET_FAIL => some .EXCEPTION_CREATE_SOCKET
  | .RET_CONNECT_FAIL => some .EXCEPTION_CONNECT
  | .RET_SEND_CMD_FAIL => some .EXCEPTION_SEND_COMMAND
  | .RET_POLL_FAIL => some .EXCEPTION_POLL_FAIL
  | .RET_POLL_TIMEOUT => some .EXCEPTION_POLL_TIMEOUT
  | .RET_PARSING_FAIL => some .EXCEPTION_PARSING_FAIL
  | .RET_SUCCESS | .RET_FCNTL_FAIL => none

/-- What a `recv` delivers: bytes, the end of the connection (0) or an error (-1). -/
inductive Recv where
  | data (bytes : Bytes)
  | closed
  | error
  deriving DecidableEq, Repr

/-- The results of the system calls of one `WebApi::run`, in the order it makes them. -/
structure SysCalls where
  socket : Int
  fcntl_nonblock : Int
  errno_inprogress : Bool
  poll_out : Int
  fcntl_flags : Int
  sends : List Int
  poll_in : Int
  recvs : List Recv
  deriving DecidableEq, Repr

namespace WebApi

/-- `while(send_length)`: true when all of it was sent, false on `RET_SEND_CMD_FAIL`, with
the bytes the socket took. The buffer is indexed by the last result `len` alone. -/
def sendLoop (cmd : Bytes) (m_cmd_offset : Nat) (send_length len : Int) (taken : Bytes) :
    List Int → Option (Bool × Bytes)
  | [] => if send_length = 0 then some (true, taken) else none
  | r :: rs =>
      if send_length = 0 then some (true, taken)
      else if r = -1 then some (false, taken)
      else
        sendLoop cmd m_cmd_offset (send_length - r) r
          (taken ++ (cmd.drop (m_cmd_offset + len.toNat)).take r.toNat) rs

/-- Where `run` stands when its reply is about to be read. -/
inductive Stage where
  | stopped (m_status : Ret)
  | parsing
  deriving DecidableEq, Repr

/-- `run` up to the call of `parsing()`. -/
def beforeParsing (cmd : Bytes) (m_cmd_offset : Nat) (sys : SysCalls) : Option Stage :=
  if sys.socket < 0 then some (.stopped .RET_CREATE_SOCKET_FAIL)
  else if sys.fcntl_nonblock < 0 then some (.stopped .RET_FCNTL_FAIL)
  else if !sys.errno_inprogress then some (.stopped .RET_CONNECT_FAIL)
  else if sys.poll_out = -1 then some (.stopped .RET_POLL_FAIL)
  else if sys.poll_out = 0 then some (.stopped .RET_POLL_TIMEOUT)
  else if sys.fcntl_flags < 0 then some (.stopped .RET_FCNTL_FAIL)
  else do
    let send_length ← strlen cmd m_cmd_offset
    let (sent, _) ← sendLoop cmd m_cmd_offset send_length 0 [] sys.sends
    if !sent then some (.stopped .RET_SEND_CMD_FAIL)
    else if sys.poll_in = -1 then some (.stopped .RET_POLL_FAIL)
    else if sys.poll_in = 0 then some (.stopped .RET_POLL_TIMEOUT)
    else some .parsing

variable {π μ : Type} [DecidableEq π]

/-- `run`, the virtual `parsing()` given; the status that `processCmd` returns. -/
def run (cmd : Bytes) (m_cmd_offset : Nat) (sys : SysCalls) (parsing : FileProg π μ Bool) :
    FileProg π μ Ret := do
  match ← FileProg.ofOption (beforeParsing cmd m_cmd_offset sys) with
  | .stopped m_status => pure m_status
  | .parsing =>
      let parsed ← parsing
      pure (if parsed then .RET_SUCCESS else .RET_PARSING_FAIL)

theorem run_emits {E : FileEvent π μ → Prop} (cmd : Bytes) (m_cmd_offset : Nat) (sys : SysCalls)
    {parsing : FileProg π μ Bool} (h : FileProg.Emits E parsing) :
    FileProg.Emits E (run cmd m_cmd_offset sys parsing) := by
  refine FileProg.Emits.bind (FileProg.Emits.ofOption _) fun stage => ?_
  cases stage with
  | stopped m_status => exact FileProg.Emits.pure m_status
  | parsing => exact FileProg.Emits.bind h fun parsed => FileProg.Emits.pure _

/-- A run that does not reach `parsing()` performs nothing on the disk. -/
theorem run_stopped {cmd : Bytes} {m_cmd_offset : Nat} {sys : SysCalls} {m_status : Ret}
    (h : beforeParsing cmd m_cmd_offset sys = some (.stopped m_status))
    (parsing : FileProg π μ Bool) (d : Disk π) :
    run cmd m_cmd_offset sys parsing d = ⟨[], some m_status⟩ := by
  rw [run, h, FileProg.ofOption_some, FileProg.pure_bind]
  rfl

theorem run_blocked {cmd : Bytes} {m_cmd_offset : Nat} {sys : SysCalls}
    (h : beforeParsing cmd m_cmd_offset sys = none)
    (parsing : FileProg π μ Bool) (d : Disk π) :
    run cmd m_cmd_offset sys parsing d = ⟨[], none⟩ := by
  rw [run, h, FileProg.ofOption_none, FileProg.stuck_bind]
  rfl

/-- A run that reaches `parsing()` performs what it performs. -/
theorem run_parsing {cmd : Bytes} {m_cmd_offset : Nat} {sys : SysCalls}
    (h : beforeParsing cmd m_cmd_offset sys = some .parsing)
    (parsing : FileProg π μ Bool) (d : Disk π) :
    run cmd m_cmd_offset sys parsing d =
      ⟨(parsing d).events,
        (parsing d).value.map fun parsed =>
          if parsed then .RET_SUCCESS else .RET_PARSING_FAIL⟩ := by
  rw [run, h, FileProg.ofOption_some, FileProg.pure_bind]
  change (parsing >>= fun parsed =>
    pure (if parsed then Ret.RET_SUCCESS else .RET_PARSING_FAIL)) d = _
  cases hv : (parsing d).value with
  | none => rw [FileProg.bind_of_none _ hv, Option.map_none]
  | some parsed =>
      rw [FileProg.bind_of_some _ hv, FileProg.pure_apply, List.append_nil, Option.map_some]

end WebApi

end Acu.Web
