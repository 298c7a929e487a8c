import Acu.Tools.Numerals
import Acu.Web.ReplyBody
import Acu.Web.Requests
import Acu.Web.Segments

/-!
# A reply on its way

The results of `recv` that bring a reply: its header whole in the first one, the rest of its
body in pieces. Whatever the pieces are, the requests that read a body end with that body.
-/

namespace Acu.Web

open Acu.Core Acu.Core.CMemory

/-- `recvs` brings a reply with this body, and then anything. -/
structure Delivery (body : Bytes) (recvs : List Recv) where
  reply : OkReply
  expected : reply.Expected
  carries : reply.body = body
  segments : Segments reply
  pieces : ∀ p ∈ segments.rest, p ≠ []
  more : List Recv
  received : recvs = segments.recvs ++ more

namespace Delivery

variable {body : Bytes} {recvs : List Recv} (del : Delivery body recvs)

/-- The header is read as it is from the first result. -/
theorem parsed (stack : CharArray RCVHEADERBUFSIZE) :
    ∃ h, parsingHeader stack (.data del.segments.first) = some (some h) ∧
      del.reply.Read del.segments.first.length h := by
  have hfirst := List.prefix_iff_eq_take.mp del.segments.first_prefix
  rw [FirstRecv.parsingHeader_received stack del.segments.first_ne_nil del.segments.asked]
  obtain ⟨h, hscan, hread⟩ := (del.reply.scanned_iff (k := del.segments.first.length)
    (stack.val.drop del.segments.first.length)).mpr ⟨del.expected, del.segments.header⟩
  rw [← hfirst] at hscan
  exact ⟨h, hscan, hread⟩

theorem body_eq :
    body = del.segments.first.drop del.reply.head.length ++ del.segments.rest.flatten := by
  have hwhole := congrArg (List.drop del.reply.head.length) del.segments.whole
  rw [List.drop_append_of_le_length del.segments.header, OkReply.text, List.drop_left,
    del.carries] at hwhole
  exact hwhole.symm

include del in
/-- What the calls that read a body make of the results. -/
theorem read (stack : CharArray RCVHEADERBUFSIZE) (heap : Nat → UInt8) (m_filename : String)
    (d : Disk String) :
    RfidInfoSelect.parsing stack heap recvs = some (some (body ++ [0])) ∧
      (0 ∉ body →
        (RfidInfoSelectAll.parsing m_filename stack heap recvs d).value = some true ∧
          FileEvent.replay d (RfidInfoSelectAll.parsing m_filename stack heap recvs d).events
            m_filename = some body) := by
  obtain ⟨h, hparse, hread⟩ := del.parsed stack
  have hbody : body = del.segments.first.drop h.startContent ++ del.segments.rest.flatten := by
    rw [hread.startContent]
    exact del.body_eq
  have hlen : h.contentLength = body.length := by
    rw [hread.contentLength, del.carries]
  have hcount : 0 ≤ h.readByteContent := by
    rw [hread.readByteContent]
    exact Int.natCast_nonneg _
  rw [del.received]
  exact (bodies_received stack heap m_filename d hparse hcount del.pieces del.more hbody hlen).2

end Delivery

/-- The reply as it is mostly written. -/
def OkReply.plain (body : Bytes) : OkReply where
  reason := ascii "OK"
  before := []
  length := lengthField (digits 10 body.length) (Tools.digits_ne_nil _)
    (Tools.digits_isDigit _)
  after := []
  body := body
  reason_text := ok_text
  others := by simp
  announced := Tools.digitsValue_digits body.length

/-- The header, and then the whole body. -/
def Delivery.plain {body : Bytes} (hne : body ≠ []) (hlen : body.length < 2147483648)
    (hhead : (OkReply.plain body).head.length < RCVHEADERBUFSIZE) :
    Delivery body [.data (OkReply.plain body).head, .data body] where
  reply := .plain body
  expected := ⟨rfl, rfl, .inl (List.cons_ne_nil _ _), hlen⟩
  carries := rfl
  segments := ⟨(OkReply.plain body).head, [body], by rw [List.flatten_singleton]; rfl,
    Nat.le_refl _, hhead⟩
  pieces := by
    intro p hp
    rwa [List.mem_singleton.mp hp]
  more := []
  received := rfl

/-! ## Requests that are answered -/

section Answered

variable {m_serverIP sMemcoCd sSiteCd body : Bytes}

/-- The record of a card, as `request_RfidInfoSelect` gives it back. -/
theorem request_RfidInfoSelect_delivered {serialnum : Bytes} {env : CallEnv} {w : Wa}
    (hw : WebService.rfidInfoSelectWa m_serverIP sMemcoCd sSiteCd serialnum env = some w)
    (hreaches : WebApi.beforeParsing w.m_cmd w.m_cmd_offset env.sys = some .parsing)
    (del : Delivery body env.sys.recvs) (d : Disk String) :
    (WebService.request_RfidInfoSelect m_serverIP sMemcoCd sSiteCd serialnum env d).value =
      some ⟨[.readResult, .delete], .ok (.block (body ++ [0]))⟩ := by
  have hread := (del.read env.stack env.heap "" d).1
  obtain ⟨⟨cmd, cmd_offset⟩, -, hwa⟩ := Option.bind_eq_some_iff.mp hw
  rw [hread] at hwa
  obtain rfl := Option.some.inj hwa
  rw [WebService.request_RfidInfoSelect, hw, WebService.perform, Wa.request]
  have hstatus : (WebApi.run cmd cmd_offset env.sys
      (Wa.ofBlock cmd (some (some (body ++ [0]))) cmd_offset).parsing d).value =
        some .RET_SUCCESS :=
    congrArg Observed.value (WebApi.run_parsing hreaches _ d)
  exact congrArg Observed.value (FileProg.bind_of_some _ hstatus)

/-- The database, as `request_RfidInfoSelectAll` leaves it in the file. -/
theorem request_RfidInfoSelectAll_delivered {env : DownloadEnv}
    (hreaches : ReachesParsing m_serverIP sMemcoCd sSiteCd env.sys)
    (del : Delivery body env.sys.recvs) (h0 : 0 ∉ body) (outFilename : String) (d : Disk String) :
    (request_RfidInfoSelectAll m_serverIP sMemcoCd sSiteCd env outFilename d).value =
        some (.ok ()) ∧
      FileEvent.replay d
        (request_RfidInfoSelectAll m_serverIP sMemcoCd sSiteCd env outFilename d).events
        outFilename = some body := by
  obtain ⟨cmd, hcmd, hs⟩ := Option.bind_eq_some_iff.mp hreaches
  obtain ⟨hvalue, hfile⟩ := (del.read env.stack env.heap outFilename d).2 h0
  have hrun := WebApi.run_parsing hs
    (RfidInfoSelectAll.parsing outFilename env.stack env.heap env.sys.recvs) d
  constructor
  · rw [request_RfidInfoSelectAll, hcmd, FileProg.ofOption_some, FileProg.pure_bind]
    have hstatus : (WebApi.run cmd 0 env.sys (RfidInfoSelectAll.parsing outFilename env.stack
        env.heap env.sys.recvs) d).value = some .RET_SUCCESS := by
      rw [hrun, hvalue]
      rfl
    rw [FileProg.bind_of_some _ hstatus]
    rfl
  · rw [request_RfidInfoSelectAll_events _ _ _ _ _ hcmd, hrun]
    exact hfile

end Answered

end Acu.Web
