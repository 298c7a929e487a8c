import Acu.Web.Requests

/-!
# How a synchronous request comes back

A request is to return a value when its command was sent and its reply was parsed,
to throw the exception of the stage that failed otherwise, and not to use its
object once it is deleted.
-/

namespace Acu.Web

open Acu.Core Acu.Core.CMemory Attendance

/-- The stages a call can fail at. -/
inductive CallStage where
  | socket
  | fcntl
  | connect
  | poll
  | timeout
  | send
  | parsing
  deriving DecidableEq, Repr

/-- The exception of a stage; there is none for `fcntl`. -/
def CallStage.except : CallStage → Option WebExcept
  | .socket => some .EXCEPTION_CREATE_SOCKET
  | .fcntl => none
  | .connect => some .EXCEPTION_CONNECT
  | .poll => some .EXCEPTION_POLL_FAIL
  | .timeout => some .EXCEPTION_POLL_TIMEOUT
  | .send => some .EXCEPTION_SEND_COMMAND
  | .parsing => some .EXCEPTION_PARSING_FAIL

/-- Each stage in its order, with whether it succeeds. -/
def stages (sys : SysCalls) (sent parsed : Bool) : List (CallStage × Bool) :=
  [(.socket, decide (0 ≤ sys.socket)), (.fcntl, decide (0 ≤ sys.fcntl_nonblock)),
    (.connect, sys.errno_inprogress), (.poll, decide (sys.poll_out ≠ -1)),
    (.timeout, decide (sys.poll_out ≠ 0)), (.fcntl, decide (0 ≤ sys.fcntl_flags)),
    (.send, sent), (.poll, decide (sys.poll_in ≠ -1)), (.timeout, decide (sys.poll_in ≠ 0)),
    (.parsing, parsed)]

/-- The sends until `n` bytes are out: each returns -1, or takes some of what is left. -/
def ValidSends : Nat → List Int → Prop
  | n, [] => n = 0
  | n, r :: rs => n = 0 ∨ r = -1 ∨ (1 ≤ r ∧ r ≤ n ∧ ValidSends (n - r.toNat) rs)

/-- One of these sends returns -1. -/
def sendFails : Nat → List Int → Bool
  | _, [] => false
  | n, r :: rs => decide (n ≠ 0) && (decide (r = -1) || sendFails (n - r.toNat) rs)

/-- Each piece taken `last` bytes into the text is the one that comes after the `sent` bytes. -/
def InOrder (text : Bytes) : Nat → Nat → List Int → Prop
  | _, _, [] => True
  | sent, last, r :: rs => text.length ≤ sent ∨
      ((text.drop last).take r.toNat = (text.drop sent).take r.toNat ∧
        InOrder text (sent + r.toNat) r.toNat rs)

namespace Wa

variable (w : Wa) (sys : SysCalls) (d : Disk String)

/-- The command as the string it is sent as. -/
def text : Option Bytes := stringAt w.m_cmd w.m_cmd_offset

/-- The bytes the socket took. -/
def taken : Option Bytes := do
  let send_length ← strlen w.m_cmd w.m_cmd_offset
  let (_, taken) ← WebApi.sendLoop w.m_cmd w.m_cmd_offset send_length 0 [] sys.sends
  some taken

/-- The first stage that fails. -/
def failed : Option CallStage :=
  let sent := !sendFails (w.text.getD []).length sys.sends
  ((stages sys sent (decide ((w.parsing d).value = some true))).find? fun s => !s.2).map Prod.fst

/-- The contract of a call that came back as `r`. -/
structure Keeps (r : Returned) : Prop where
  returns : ∀ v, r.value = .ok v → w.failed sys d = none ∧ w.taken sys = w.text
  throws : ∀ e, r.value = .error e → ∃ s, w.failed sys d = some s ∧ s.except = some e
  reads : ∀ before after, r.wa = before ++ .readResult :: after → .delete ∉ before

/-- The call comes back and keeps its contract. -/
def Lawful : Prop := ∃ r, (w.request sys d).value = some r ∧ w.Keeps sys d r

/-- As far as the call gets: no `fcntl` fails; the command is a string; `parsing()` comes to its
end; and where it is true the pieces of the command followed one another. -/
def Sound : Prop :=
  sys.socket < 0 ∨ (0 ≤ sys.fcntl_nonblock ∧
    (sys.errno_inprogress = false ∨ sys.poll_out = -1 ∨ sys.poll_out = 0 ∨
      (0 ≤ sys.fcntl_flags ∧ ∃ text, w.text = some text ∧
        (sendFails text.length sys.sends = true ∨ sys.poll_in = -1 ∨ sys.poll_in = 0 ∨
          (w.parsing d).value = some false ∨
          ((w.parsing d).value = some true ∧ InOrder text 0 0 sys.sends)))))

end Wa

/-! ## The sends -/

theorem sendLoop_fails (cmd : Bytes) (off : Nat) {n : Nat} {sends : List Int}
    (hvalid : ValidSends n sends) (hfails : sendFails n sends = true) (len : Int)
    (taken : Bytes) :
    ∃ out, WebApi.sendLoop cmd off n len taken sends = some (false, out) := by
  induction sends generalizing n len taken with
  | nil => cases hfails
  | cons r rs ih =>
      simp only [sendFails, Bool.and_eq_true, Bool.or_eq_true, decide_eq_true_eq] at hfails
      rcases hfails with ⟨hn, hr⟩
      by_cases hneg : r = -1
      · exact ⟨taken, by simp [WebApi.sendLoop, hn, hneg]⟩
      · have hrest := hr.resolve_left hneg
        rcases hvalid with h | h | ⟨h1, hle, hv⟩
        · exact absurd h hn
        · exact absurd h hneg
        · obtain ⟨out, hout⟩ := ih hv hrest r
            (taken ++ (cmd.drop (off + len.toNat)).take r.toNat)
          have hsub : (n : Int) - r = ((n - r.toNat : Nat) : Int) := by omega
          refine ⟨out, ?_⟩
          rw [WebApi.sendLoop, if_neg (by omega), if_neg hneg, hsub]
          exact hout

/-- Sends that do not fail come to the end, with the whole text precisely when the pieces
followed one another. -/
theorem sendLoop_completes {cmd text rest : Bytes} {off : Nat} {sends : List Int}
    (sent len : Nat) (taken : Bytes) (hcmd : cmd.drop off = text ++ rest)
    (hsent : sent ≤ text.length) (hlen : len ≤ sent) (htaken : taken.length = sent)
    (hvalid : ValidSends (text.length - sent) sends)
    (hfails : sendFails (text.length - sent) sends = false) :
    ∃ out, WebApi.sendLoop cmd off (text.length - sent : Nat) len taken sends = some (true, out) ∧
      (out = text ↔ taken = text.take sent ∧ InOrder text sent len sends) := by
  induction sends generalizing sent len taken with
  | nil =>
      have hz : text.length - sent = 0 := hvalid
      refine ⟨taken, by simp [WebApi.sendLoop, hz], ?_⟩
      rw [List.take_of_length_le (by omega)]
      simp [InOrder]
  | cons r rs ih =>
      by_cases hz : text.length - sent = 0
      · refine ⟨taken, by simp [WebApi.sendLoop, hz], ?_⟩
        rw [List.take_of_length_le (by omega)]
        have hle : text.length ≤ sent := by omega
        simp [InOrder, hle]
      · simp only [sendFails, hz, ne_eq, not_false_eq_true, decide_true, Bool.true_and,
          Bool.or_eq_false_iff, decide_eq_false_iff_not] at hfails
        rcases hfails with ⟨hneg, hfails⟩
        rcases hvalid with h | h | ⟨h1, hle, hv⟩
        · exact absurd h hz
        · exact absurd h hneg
        · have hsub : text.length - sent - r.toNat = text.length - (sent + r.toNat) := by omega
          rw [hsub] at hv hfails
          have hpiece : (cmd.drop (off + len)).take r.toNat = (text.drop len).take r.toNat := by
            rw [← List.drop_drop, hcmd, List.drop_append_of_le_length (by omega),
              List.take_append_of_le_length (by simp; omega)]
          have hplen : ((text.drop len).take r.toNat).length = r.toNat := by
            simp
            omega
          obtain ⟨out, hout, hiff⟩ := ih (sent + r.toNat) r.toNat
            (taken ++ (text.drop len).take r.toNat) (by omega) (by omega)
            (by rw [List.length_append, hplen, htaken]) hv hfails
          refine ⟨out, ?_, ?_⟩
          · have hleft : ((text.length - sent : Nat) : Int) - r =
                ((text.length - (sent + r.toNat) : Nat) : Int) := by omega
            have hr : r = (r.toNat : Int) := by omega
            rw [WebApi.sendLoop, if_neg (by omega), if_neg hneg, hleft, Int.toNat_natCast, hpiece,
              hr, Int.toNat_natCast]
            exact hout
          · have hsplit : taken ++ (text.drop len).take r.toNat = text.take (sent + r.toNat) ↔
                taken = text.take sent ∧
                  (text.drop len).take r.toNat = (text.drop sent).take r.toNat := by
              rw [List.take_add]
              constructor
              · intro h
                exact List.append_inj h (by simp; omega)
              · intro h
                rw [h.1, h.2]
            have hbehind : ¬ text.length ≤ sent := by omega
            rw [hiff, hsplit, InOrder]
            simp only [hbehind, false_or]
            exact and_assoc

/-! ## The status -/

/-- The stage a status stands for. -/
def Ret.stage : Ret → Option CallStage
  | .RET_SUCCESS => none
  | .RET_CREATE_SOCKET_FAIL => some .socket
  | .RET_CONNECT_FAIL => some .connect
  | .RET_SEND_CMD_FAIL => some .send
  | .RET_FCNTL_FAIL => some .fcntl
  | .RET_POLL_FAIL => some .poll
  | .RET_POLL_TIMEOUT => some .timeout
  | .RET_PARSING_FAIL => some .parsing

namespace Wa

variable {w : Wa} {sys : SysCalls} {d : Disk String}

/-- The status `processCmd` returns. -/
def status (w : Wa) (sys : SysCalls) (d : Disk String) : Option Ret :=
  (WebApi.run w.m_cmd w.m_cmd_offset sys w.parsing d).value

theorem request_value : (w.request sys d).value = (w.status sys d).map w.returned := by
  unfold request status
  cases h : (WebApi.run w.m_cmd w.m_cmd_offset sys w.parsing d).value with
  | none => rw [FileProg.bind_of_none _ h, Option.map_none]
  | some st =>
      rw [FileProg.bind_of_some _ h]
      rfl

theorem status_of_stopped {st : Ret}
    (h : WebApi.beforeParsing w.m_cmd w.m_cmd_offset sys = some (.stopped st)) :
    w.status sys d = some st := by
  rw [status, WebApi.run_stopped h]

/-- The status behind the sends. -/
def lateStatus (w : Wa) (sys : SysCalls) (d : Disk String) : Option Ret :=
  if sys.poll_in = -1 then some .RET_POLL_FAIL
  else if sys.poll_in = 0 then some .RET_POLL_TIMEOUT
  else (w.parsing d).value.map fun parsed => if parsed then .RET_SUCCESS else .RET_PARSING_FAIL

/-- The ways `run` stops before it sends. -/
inductive StopsEarly (sys : SysCalls) : Ret → Prop where
  | socket (h : sys.socket < 0) : StopsEarly sys .RET_CREATE_SOCKET_FAIL
  | nonblock (h₁ : 0 ≤ sys.socket) (h : sys.fcntl_nonblock < 0) : StopsEarly sys .RET_FCNTL_FAIL
  | connect (h₁ : 0 ≤ sys.socket) (h₂ : 0 ≤ sys.fcntl_nonblock)
      (h : sys.errno_inprogress = false) : StopsEarly sys .RET_CONNECT_FAIL
  | poll (h₁ : 0 ≤ sys.socket) (h₂ : 0 ≤ sys.fcntl_nonblock) (h₃ : sys.errno_inprogress = true)
      (h : sys.poll_out = -1) : StopsEarly sys .RET_POLL_FAIL
  | timeout (h₁ : 0 ≤ sys.socket) (h₂ : 0 ≤ sys.fcntl_nonblock)
      (h₃ : sys.errno_inprogress = true) (h : sys.poll_out = 0) : StopsEarly sys .RET_POLL_TIMEOUT
  | flags (h₁ : 0 ≤ sys.socket) (h₂ : 0 ≤ sys.fcntl_nonblock) (h₃ : sys.errno_inprogress = true)
      (h₄ : sys.poll_out ≠ -1) (h₅ : sys.poll_out ≠ 0) (h : sys.fcntl_flags < 0) :
      StopsEarly sys .RET_FCNTL_FAIL

/-- The socket is connected and blocks again. -/
structure Connected (sys : SysCalls) : Prop where
  socket : 0 ≤ sys.socket
  nonblock : 0 ≤ sys.fcntl_nonblock
  inprogress : sys.errno_inprogress = true
  poll : sys.poll_out ≠ -1
  timeout : sys.poll_out ≠ 0
  flags : 0 ≤ sys.fcntl_flags

theorem early_or_connected (sys : SysCalls) : (∃ st, StopsEarly sys st) ∨ Connected sys := by
  by_cases h1 : sys.socket < 0
  · exact .inl ⟨_, .socket h1⟩
  by_cases h2 : sys.fcntl_nonblock < 0
  · exact .inl ⟨_, .nonblock (Int.not_lt.mp h1) h2⟩
  cases h3 : sys.errno_inprogress with
  | false => exact .inl ⟨_, .connect (Int.not_lt.mp h1) (Int.not_lt.mp h2) h3⟩
  | true =>
      by_cases h4 : sys.poll_out = -1
      · exact .inl ⟨_, .poll (Int.not_lt.mp h1) (Int.not_lt.mp h2) h3 h4⟩
      by_cases h5 : sys.poll_out = 0
      · exact .inl ⟨_, .timeout (Int.not_lt.mp h1) (Int.not_lt.mp h2) h3 h5⟩
      by_cases h6 : sys.fcntl_flags < 0
      · exact .inl ⟨_, .flags (Int.not_lt.mp h1) (Int.not_lt.mp h2) h3 h4 h5 h6⟩
      exact .inr ⟨Int.not_lt.mp h1, Int.not_lt.mp h2, h3, h4, h5, Int.not_lt.mp h6⟩

section Early

variable {st : Ret} (h : StopsEarly sys st)

include h

theorem StopsEarly.status : w.status sys d = some st := by
  apply status_of_stopped
  cases h with
  | socket h => simp [WebApi.beforeParsing, h]
  | nonblock h₁ h => simp [WebApi.beforeParsing, Int.not_lt.mpr h₁, h]
  | connect h₁ h₂ h => simp [WebApi.beforeParsing, Int.not_lt.mpr h₁, Int.not_lt.mpr h₂, h]
  | poll h₁ h₂ h₃ h =>
      simp [WebApi.beforeParsing, Int.not_lt.mpr h₁, Int.not_lt.mpr h₂, h₃, h]
  | timeout h₁ h₂ h₃ h =>
      simp [WebApi.beforeParsing, Int.not_lt.mpr h₁, Int.not_lt.mpr h₂, h₃, h]
  | flags h₁ h₂ h₃ h₄ h₅ h =>
      simp [WebApi.beforeParsing, Int.not_lt.mpr h₁, Int.not_lt.mpr h₂, h₃, h₄, h₅, h]

theorem StopsEarly.failed : w.failed sys d = st.stage := by
  cases h with
  | socket h => simp [Wa.failed, stages, Ret.stage, Int.not_le.mpr h]
  | nonblock h₁ h => simp [Wa.failed, stages, Ret.stage, h₁, Int.not_le.mpr h]
  | connect h₁ h₂ h => simp [Wa.failed, stages, Ret.stage, h₁, h₂, h]
  | poll h₁ h₂ h₃ h => simp [Wa.failed, stages, Ret.stage, h₁, h₂, h₃, h]
  | timeout h₁ h₂ h₃ h => simp [Wa.failed, stages, Ret.stage, h₁, h₂, h₃, h]
  | flags h₁ h₂ h₃ h₄ h₅ h =>
      simp [Wa.failed, stages, Ret.stage, h₁, h₂, h₃, h₄, h₅, Int.not_le.mpr h]

theorem StopsEarly.sound_iff : w.Sound sys d ↔ st ≠ .RET_FCNTL_FAIL := by
  cases h with
  | socket h => simp [Sound, h]
  | nonblock h₁ h => simp [Sound, Int.not_lt.mpr h₁, Int.not_le.mpr h]
  | connect h₁ h₂ h => simp [Sound, h₂, h]
  | poll h₁ h₂ h₃ h => simp [Sound, h₂, h]
  | timeout h₁ h₂ h₃ h => simp [Sound, h₂, h]
  | flags h₁ h₂ h₃ h₄ h₅ h =>
      simp [Sound, Int.not_lt.mpr h₁, h₃, h₄, h₅, Int.not_le.mpr h]

end Early

theorem beforeParsing_of_connected (h : Connected sys) :
    WebApi.beforeParsing w.m_cmd w.m_cmd_offset sys =
      (strlen w.m_cmd w.m_cmd_offset).bind fun send_length =>
        (WebApi.sendLoop w.m_cmd w.m_cmd_offset send_length 0 [] sys.sends).bind fun sent =>
          if !sent.1 then some (.stopped .RET_SEND_CMD_FAIL)
          else if sys.poll_in = -1 then some (.stopped .RET_POLL_FAIL)
          else if sys.poll_in = 0 then some (.stopped .RET_POLL_TIMEOUT)
          else some .parsing := by
  have h1 := Int.not_lt.mpr h.socket
  have h2 := Int.not_lt.mpr h.nonblock
  have h3 := Int.not_lt.mpr h.flags
  simp only [WebApi.beforeParsing, h1, h2, h3, h.inprogress, h.poll, h.timeout, if_false,
    Bool.not_true, Bool.false_eq_true]
  rfl

theorem status_of_no_text (h : Connected sys) (ht : w.text = none) : w.status sys d = none := by
  have hlen : strlen w.m_cmd w.m_cmd_offset = none := congrArg (Option.map List.length) ht
  have hb := beforeParsing_of_connected (w := w) h
  rw [hlen] at hb
  rw [status, WebApi.run_blocked hb]

theorem status_of_sends (h : Connected sys) {text out : Bytes} {sent : Bool}
    (ht : w.text = some text)
    (hs : WebApi.sendLoop w.m_cmd w.m_cmd_offset text.length 0 [] sys.sends = some (sent, out)) :
    w.status sys d = (if sent then w.lateStatus sys d else some .RET_SEND_CMD_FAIL) ∧
      w.taken sys = some out := by
  have hlen : strlen w.m_cmd w.m_cmd_offset = some text.length :=
    congrArg (Option.map List.length) ht
  have hb := beforeParsing_of_connected (w := w) h
  simp only [hlen, Option.bind_some, hs] at hb
  refine ⟨?_, by simp [taken, hlen, hs]⟩
  cases sent with
  | false => exact status_of_stopped hb
  | true =>
      simp only [Bool.not_true, Bool.false_eq_true, if_false] at hb
      simp only [if_true, lateStatus]
      by_cases h1 : sys.poll_in = -1
      · rw [if_pos h1] at hb ⊢
        exact status_of_stopped hb
      · by_cases h2 : sys.poll_in = 0
        · rw [if_neg h1, if_pos h2] at hb ⊢
          exact status_of_stopped hb
        · rw [if_neg h1, if_neg h2] at hb ⊢
          rw [status, WebApi.run_parsing hb]

/-! ## The contract -/

variable (w sys d)

/-- The command, when it comes to it, is sent by calls that behave as `send` does. -/
def Sends : Prop :=
  Connected sys → ∀ text, w.text = some text → ValidSends text.length sys.sends

/-- The call has a status that the macro knows, and after the whole command where it is the
one of success. -/
def Reported : Prop :=
  ∃ st, w.status sys d = some st ∧ st ≠ .RET_FCNTL_FAIL ∧
    (st = .RET_SUCCESS → w.taken sys = w.text)

variable {w sys d}

/-- Behind the connection: the sends fail, or come to their end. -/
theorem sends_cases (h : Connected sys) (hsends : w.Sends sys) {text : Bytes}
    (ht : w.text = some text) :
    (sendFails text.length sys.sends = true ∧ w.status sys d = some .RET_SEND_CMD_FAIL) ∨
      (sendFails text.length sys.sends = false ∧ w.status sys d = w.lateStatus sys d ∧
        (w.taken sys = w.text ↔ InOrder text 0 0 sys.sends)) := by
  have hvalid := hsends h text ht
  cases hf : sendFails text.length sys.sends with
  | true =>
      obtain ⟨out, hout⟩ := sendLoop_fails w.m_cmd w.m_cmd_offset hvalid hf 0 []
      exact .inl ⟨rfl, (status_of_sends h ht hout).1⟩
  | false =>
      obtain ⟨-, rest, hrest⟩ := cstring_eq_some ht
      obtain ⟨out, hout, hiff⟩ := sendLoop_completes 0 0 [] hrest
        (Nat.zero_le _) (Nat.le_refl 0) rfl hvalid hf
      obtain ⟨hstatus, htaken⟩ := status_of_sends (d := d) h ht hout
      refine .inr ⟨rfl, hstatus, ?_⟩
      rw [htaken, ht, Option.some.injEq, hiff]
      simp

/-- The first stage that fails is the one the status stands for. -/
theorem failed_eq_stage (hsends : w.Sends sys) {st : Ret} (h : w.status sys d = some st) :
    w.failed sys d = st.stage := by
  cases early_or_connected sys with
  | inl hearly =>
      rcases hearly with ⟨st', hst⟩
      have heq := hst.status (w := w) (d := d)
      rw [h, Option.some.injEq] at heq
      rw [heq]
      exact hst.failed
  | inr hc =>
      cases ht : w.text with
      | none =>
          rw [status_of_no_text hc ht] at h
          cases h
      | some text =>
          rcases sends_cases (d := d) hc hsends ht with ⟨hf, hs⟩ | ⟨hf, hs, -⟩
          · rw [h, Option.some.injEq] at hs
            simp [failed, stages, ht, hf, hc.socket, hc.nonblock, hc.inprogress, hc.poll,
              hc.timeout, hc.flags, hs, Ret.stage]
          · rw [h, lateStatus] at hs
            split at hs
            next hp =>
              cases hs
              simp [failed, stages, ht, hf, hc.socket, hc.nonblock, hc.inprogress, hc.poll,
                hc.timeout, hc.flags, hp, Ret.stage]
            next hp =>
              split at hs
              next hp' =>
                cases hs
                simp [failed, stages, ht, hf, hc.socket, hc.nonblock, hc.inprogress, hc.poll,
                  hc.timeout, hc.flags, hp', Ret.stage]
              next hp' =>
                obtain ⟨parsed, hv, hst⟩ := Option.map_eq_some_iff.mp hs.symm
                cases parsed with
                | true =>
                    cases hst
                    simp [failed, stages, ht, hf, hc.socket, hc.nonblock, hc.inprogress, hc.poll,
                      hc.timeout, hc.flags, hp, hp', hv, Ret.stage]
                | false =>
                    cases hst
                    simp [failed, stages, ht, hf, hc.socket, hc.nonblock, hc.inprogress, hc.poll,
                      hc.timeout, hc.flags, hp, hp', hv, Ret.stage]

theorem StopsEarly.ne_success {st : Ret} (h : StopsEarly sys st) : st ≠ .RET_SUCCESS := by
  intro hs
  cases h <;> cases hs

/-- Behind the sends only a value of `parsing()` is missing or true. -/
theorem lateStatus_iff {q : Prop} :
    (∃ st, w.lateStatus sys d = some st ∧ st ≠ .RET_FCNTL_FAIL ∧ (st = .RET_SUCCESS → q)) ↔
      sys.poll_in = -1 ∨ sys.poll_in = 0 ∨ (w.parsing d).value = some false ∨
        ((w.parsing d).value = some true ∧ q) := by
  unfold lateStatus
  by_cases h1 : sys.poll_in = -1
  · simp [h1]
  · by_cases h2 : sys.poll_in = 0
    · simp [h2]
    · cases hv : (w.parsing d).value with
      | none => simp [h1, h2]
      | some parsed => cases parsed <;> simp [h1, h2]

theorem sound_iff_reported (hsends : w.Sends sys) : w.Sound sys d ↔ w.Reported sys d := by
  cases early_or_connected sys with
  | inl hearly =>
      rcases hearly with ⟨st, hst⟩
      rw [hst.sound_iff, Reported, hst.status]
      constructor
      · intro hf
        exact ⟨st, rfl, hf, fun hs => absurd hs hst.ne_success⟩
      · intro h
        rcases h with ⟨st', heq, hf, -⟩
        exact Option.some.inj heq ▸ hf
  | inr hc =>
      have hsound : w.Sound sys d ↔ ∃ text, w.text = some text ∧
          (sendFails text.length sys.sends = true ∨ sys.poll_in = -1 ∨ sys.poll_in = 0 ∨
            (w.parsing d).value = some false ∨
            ((w.parsing d).value = some true ∧ InOrder text 0 0 sys.sends)) := by
        simp [Sound, Int.not_lt.mpr hc.socket, hc.nonblock, hc.inprogress, hc.poll, hc.timeout,
          hc.flags]
      rw [hsound, Reported]
      cases ht : w.text with
      | none => simp [status_of_no_text hc ht]
      | some text =>
          rcases sends_cases (d := d) hc hsends ht with ⟨hf, hs⟩ | ⟨hf, hs, hiff⟩
          · simp [hf, hs]
          · rw [ht] at hiff
            rw [hs, hiff, lateStatus_iff]
            simp [hf]

/-- The result is read before the object is deleted. -/
theorem takeResult_reads {before after : List WaEvent}
    (h : w.takeResult = before ++ .readResult :: after) : .delete ∉ before := by
  unfold takeResult at h
  cases before with
  | nil => simp
  | cons x xs =>
      split at h
      · obtain ⟨-, hrest⟩ := List.cons.inj h
        cases xs with
        | nil => simp at hrest
        | cons y ys => simp at hrest
      · simp at h

/-- A status that stands for a stage other than `fcntl` is thrown, and the object deleted. -/
theorem returned_of_stage {st : Ret} {s : CallStage} (h : st.stage = some s)
    (hf : st ≠ .RET_FCNTL_FAIL) :
    ∃ e, s.except = some e ∧ w.returned st = ⟨[.delete], .error e⟩ := by
  cases st with
  | RET_SUCCESS => cases h
  | RET_FCNTL_FAIL => exact absurd rfl hf
  | _ =>
      cases h
      exact ⟨_, rfl, rfl⟩

theorem lawful_iff_reported (hsends : w.Sends sys) : w.Lawful sys d ↔ w.Reported sys d := by
  unfold Lawful Reported
  rw [request_value]
  constructor
  · intro h
    rcases h with ⟨r, hr, hk⟩
    obtain ⟨st, hst, rfl⟩ := Option.map_eq_some_iff.mp hr
    have hstage := failed_eq_stage hsends hst
    refine ⟨st, hst, ?_, ?_⟩
    · intro hf
      subst hf
      have hnone := (hk.returns _ rfl).1
      rw [hstage] at hnone
      cases hnone
    · intro hs
      subst hs
      exact (hk.returns _ rfl).2
  · intro h
    rcases h with ⟨st, hst, hf, hs⟩
    have hstage := failed_eq_stage hsends hst
    refine ⟨w.returned st, by rw [hst, Option.map_some], ?_⟩
    cases hst' : st.stage with
    | none =>
        obtain rfl : st = .RET_SUCCESS := by cases st <;> first | rfl | cases hst'
        exact ⟨fun v _ => ⟨hstage, hs rfl⟩, fun e he => (nomatch he),
          fun before after h => takeResult_reads h⟩
    | some s =>
        obtain ⟨e, he, hr⟩ := returned_of_stage (w := w) hst' hf
        rw [hst'] at hstage
        rw [hr]
        refine ⟨fun v hv => (nomatch hv), fun e' he' => ?_, fun before after h => ?_⟩
        · cases he'
          exact ⟨s, hstage, he⟩
        · cases before with
          | nil => simp
          | cons x xs => simp at h

/-- A call whose sends behave keeps its contract precisely when it is sound. -/
theorem keeps_iff_sound (hsends : w.Sends sys) : w.Lawful sys d ↔ w.Sound sys d :=
  (lawful_iff_reported hsends).trans (sound_iff_reported hsends).symm

end Wa

/-! ## Every request -/

/-- A synchronous call with its arguments. -/
inductive SyncRequest where
  | CodeDataSelect (sMemcoCd sSiteCd sDvLoc : Bytes)
  | GetNetInfo
  | RfidInfoSelectAll (sMemcoCd sSiteCd : Bytes) (outFilename : String)
  | RfidInfoSelect (sMemcoCd sSiteCd serialnum : Bytes)
  | ServerTimeGet
  | StatusUpdate (sGateType sSiteCd sDvLoc sdvNo sIpAddress sMacAddress : Bytes)
  | TimeSheetInsertString (cfg : Config) (ts : TimeSheet) (outDirectory : String)
  | SendFile (filename : String)

namespace SyncRequest

variable (m_serverIP : Bytes)

/-- The object of the call. -/
def wa (env : CallEnv) (d : Disk String) : SyncRequest → Option Wa
  | .CodeDataSelect m s l => WebService.codeDataSelectWa m_serverIP m s l env
  | .GetNetInfo => WebService.getNetInfoWa m_serverIP env
  | .RfidInfoSelectAll m s f => WebService.rfidInfoSelectAllWa m_serverIP m s f env
  | .RfidInfoSelect m s n => WebService.rfidInfoSelectWa m_serverIP m s n env
  | .ServerTimeGet => WebService.serverTimeGetWa m_serverIP env
  | .StatusUpdate g s l n i a => WebService.statusUpdateWa m_serverIP g s l n i a env
  | .TimeSheetInsertString cfg ts o => WebService.timeSheetInsertStringWa cfg ts o env
  | .SendFile f => WebService.sendFileWa f env d

def call (env : CallEnv) : SyncRequest → FileProg String Note Returned
  | .CodeDataSelect m s l => WebService.request_CodeDataSelect m_serverIP m s l env
  | .GetNetInfo => WebService.request_GetNetInfo m_serverIP env
  | .RfidInfoSelectAll m s f => WebService.request_RfidInfoSelectAll m_serverIP m s f env
  | .RfidInfoSelect m s n => WebService.request_RfidInfoSelect m_serverIP m s n env
  | .ServerTimeGet => WebService.request_ServerTimeGet m_serverIP env
  | .StatusUpdate g s l n i a => WebService.request_StatusUpdate m_serverIP g s l n i a env
  | .TimeSheetInsertString cfg ts o => WebService.request_TimeSheetInsertString cfg ts o env
  | .SendFile f => WebService.request_SendFile f env

theorem call_eq (env : CallEnv) (d : Disk String) (r : SyncRequest) :
    r.call m_serverIP env d = WebService.perform env (r.wa m_serverIP env d) d := by
  cases r <;> rfl

/-- The call comes back and keeps its contract. -/
def Lawful (env : CallEnv) (d : Disk String) (r : SyncRequest) : Prop :=
  ∃ o w, (r.call m_serverIP env d).value = some o ∧ r.wa m_serverIP env d = some w ∧
    w.Keeps env.sys d o

end SyncRequest

/-! The question whether the net is there, with a socket that cannot be created, and with one
that cannot be set to non-blocking. -/

def netEnv (sys : SysCalls) : CallEnv where
  sys := sys
  stack := ⟨List.replicate RCVHEADERBUFSIZE 0, zeros_length⟩
  cmd := fun _ => 0
  heap := fun _ => 0
  m_ret := false
  behind := []

def netReply : Bytes :=
  ascii "HTTP/1.1 200 OK\r\nContent-Length: 31\r\n\r\n<?xml?>\n<boolean>true</boolean>"

def netThere : SysCalls := ⟨3, 0, true, 1, 0, [40, 34], 1, [.data netReply]⟩

def noFcntl : SysCalls := ⟨3, -1, true, 1, 0, [], 1, []⟩

def getNetInfoObject : Wa :=
  .ofBool (WebService.getNetInfoText (ascii "10.9.0.2") ++ [0]) 0 (netEnv netThere)

theorem getNetInfoObject_text :
    getNetInfoObject.text = some (WebService.getNetInfoText (ascii "10.9.0.2")) :=
  cstring_append_nul _ [] (by decide +kernel)

theorem getNetInfoObject_sound : getNetInfoObject.Sound netThere fun _ => none := by
  have hparsed : WebApi.parsing (netEnv netThere).stack netThere.recvs = some (some true) := by
    decide +kernel
  have htrue : (getNetInfoObject.parsing fun _ => none).value = some true := by
    rw [getNetInfoObject, Wa.ofBool, FileProg.ofOption_value]
    exact congrArg (Option.map Option.isSome) hparsed
  have hnonblock : 0 ≤ netThere.fcntl_nonblock := by decide
  have hflags : 0 ≤ netThere.fcntl_flags := by decide
  have hpieces : InOrder (WebService.getNetInfoText (ascii "10.9.0.2")) 0 0 netThere.sends :=
    .inr ⟨rfl, .inr ⟨rfl, trivial⟩⟩
  exact .inr ⟨hnonblock, .inr (.inr (.inr ⟨hflags, _, getNetInfoObject_text,
    .inr (.inr (.inr (.inr ⟨htrue, hpieces⟩)))⟩))⟩

end Acu.Web
