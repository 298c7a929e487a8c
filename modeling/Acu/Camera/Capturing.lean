import Acu.Camera.TakePicture
import Mathlib.Data.List.Forall2

/-!
# The capture loop and the flags of its buffers

A buffer comes with a word of flags, each of them a bit. `FillBufferDone` compares the
word as a whole, so that it sees a flag only where no other one is set, and leaves the
status of the buffer before in place where it sees none; the loop acts on the status.
-/

namespace Acu.Camera

/-- `OMX_BUFFERFLAG_EOS` and `OMX_BUFFERFLAG_ENDOFFRAME`. -/
def OMX_BUFFERFLAG_EOS : UInt32 := 1
def OMX_BUFFERFLAG_ENDOFFRAME : UInt32 := 16

/-- A filled buffer: what it holds fits into the one that was handed out, whose size is an
`int`. -/
structure FilledBuffer where
  nFlags : UInt32
  nFilledLen : Nat
  fits : nFilledLen ≤ 2147483647

namespace FilledBuffer

def endOfFrame (b : FilledBuffer) : Bool := b.nFlags &&& OMX_BUFFERFLAG_ENDOFFRAME != 0

def endOfStream (b : FilledBuffer) : Bool := b.nFlags &&& OMX_BUFFERFLAG_EOS != 0

end FilledBuffer

/-- The members that the callback writes and the loop reads. -/
structure Encoder where
  m_bufferStatus : BufferStatus
  m_flength : Int
  deriving DecidableEq, Repr

/-- A call that the loop makes; the still camera has given it both functions. -/
inductive CaptureCall where
  | cbEndOfFrame (length : Int)
  | cbEndOfStream
  deriving DecidableEq, Repr

namespace Encoder

def FillBufferDone (pBuffer : FilledBuffer) (e : Encoder) : Encoder :=
  let e :=
    if pBuffer.nFlags = OMX_BUFFERFLAG_ENDOFFRAME then
      { e with m_bufferStatus := .EOF_S, m_flength := pBuffer.nFilledLen }
    else e
  if pBuffer.nFlags = OMX_BUFFERFLAG_EOS then { e with m_bufferStatus := .EOS_S } else e

/-- The rounds of the loop on the buffers it is given, with the calls of each; the loop is left
at the end of a stream. -/
def rounds : Encoder → List FilledBuffer → List (List CaptureCall)
  | _, [] => []
  | e, b :: bs =>
      let e := e.FillBufferDone b
      match e.m_bufferStatus with
      | .EOF_S => [.cbEndOfFrame e.m_flength] :: rounds e bs
      | .EOS_S => [[.cbEndOfStream]]
      | .NONE_S => [] :: rounds e bs

/-- `capturing`: what is in `m_flength` at first is not looked at. -/
def capturing (e : Encoder) (bs : List FilledBuffer) : List (List CaptureCall) :=
  { e with m_bufferStatus := .NONE_S }.rounds bs

end Encoder

/-! ## What the flags ask for -/

/-- The calls for a buffer. -/
def FilledBuffer.calls (b : FilledBuffer) : List CaptureCall :=
  (if b.endOfFrame then [.cbEndOfFrame b.nFilledLen] else []) ++
    if b.endOfStream then [.cbEndOfStream] else []

/-- The rounds up to the first buffer that ends the stream. -/
def wanted : List FilledBuffer → List (List CaptureCall)
  | [] => []
  | b :: bs => b.calls :: if b.endOfStream then [] else wanted bs

/-- Each buffer gets the calls that its flags ask for, in either order, and the loop is left where
it should be. -/
def Captures (e : Encoder) (bs : List FilledBuffer) : Prop :=
  List.Forall₂ List.Perm (e.capturing bs) (wanted bs)

/-- The length of the last buffer that ended a frame and had no other flag. -/
def lastFrame (bs : List FilledBuffer) (last : Option Nat) : Option Nat :=
  bs.foldl (fun last b =>
    if b.nFlags = OMX_BUFFERFLAG_ENDOFFRAME then some b.nFilledLen else last) last

/-- A buffer that the loop does right by, behind others of which the last frame is known: it has
one of the two flags alone; or it has neither of them and there was no frame; or it ends a frame
as long as the last one. -/
def Handled (last : Option Nat) (b : FilledBuffer) : Prop :=
  b.nFlags = OMX_BUFFERFLAG_ENDOFFRAME ∨ b.nFlags = OMX_BUFFERFLAG_EOS ∨
    (b.endOfFrame = false ∧ b.endOfStream = false ∧ last = none) ∨
    (b.endOfFrame = true ∧ b.endOfStream = false ∧ last = some b.nFilledLen)

/-! ## One round -/

theorem flags_endOfFrame {b : FilledBuffer} (h : b.nFlags = OMX_BUFFERFLAG_ENDOFFRAME) :
    b.endOfFrame = true ∧ b.endOfStream = false := by
  rw [FilledBuffer.endOfFrame, FilledBuffer.endOfStream, h]
  decide

theorem flags_endOfStream {b : FilledBuffer} (h : b.nFlags = OMX_BUFFERFLAG_EOS) :
    b.endOfFrame = false ∧ b.endOfStream = true := by
  rw [FilledBuffer.endOfFrame, FilledBuffer.endOfStream, h]
  decide

/-- The status of the loop between two rounds. -/
inductive Encoder.Behind (e : Encoder) : Option Nat → Prop where
  | none (h : e.m_bufferStatus = .NONE_S) : e.Behind none
  | frame (n : Nat) (h : e.m_bufferStatus = .EOF_S) (hlength : e.m_flength = n) :
      e.Behind (some n)

section Round

variable {e : Encoder} {b : FilledBuffer} {last : Option Nat}

theorem Encoder.FillBufferDone_frame (h : b.nFlags = OMX_BUFFERFLAG_ENDOFFRAME) :
    e.FillBufferDone b = ⟨.EOF_S, b.nFilledLen⟩ := by
  have hne : OMX_BUFFERFLAG_ENDOFFRAME ≠ OMX_BUFFERFLAG_EOS := by decide
  rw [Encoder.FillBufferDone, h, if_pos rfl, if_neg hne]

theorem Encoder.FillBufferDone_stream (h : b.nFlags = OMX_BUFFERFLAG_EOS) :
    e.FillBufferDone b = { e with m_bufferStatus := .EOS_S } := by
  have hne : OMX_BUFFERFLAG_EOS ≠ OMX_BUFFERFLAG_ENDOFFRAME := by decide
  rw [Encoder.FillBufferDone, h, if_pos rfl, if_neg hne]

theorem Encoder.FillBufferDone_other (hf : b.nFlags ≠ OMX_BUFFERFLAG_ENDOFFRAME)
    (hs : b.nFlags ≠ OMX_BUFFERFLAG_EOS) : e.FillBufferDone b = e := by
  rw [Encoder.FillBufferDone, if_neg hf, if_neg hs]

/-- Only the two flags alone change what is known of the last frame. -/
theorem lastFrame_cons (bs : List FilledBuffer) :
    lastFrame (b :: bs) last = lastFrame bs (lastFrame [b] last) := rfl

theorem lastFrame_other (hf : b.nFlags ≠ OMX_BUFFERFLAG_ENDOFFRAME) :
    lastFrame [b] last = last := if_neg hf

/-- Where neither flag stands alone, the calls of the round before are repeated. -/
theorem other_calls_iff (hlast : e.Behind last) (hf : b.nFlags ≠ OMX_BUFFERFLAG_ENDOFFRAME)
    (hs : b.nFlags ≠ OMX_BUFFERFLAG_EOS) :
    List.Perm (match last with
      | some n => [CaptureCall.cbEndOfFrame n]
      | none => []) b.calls ↔ Handled last b := by
  rw [Handled, FilledBuffer.calls]
  cases hframe : b.endOfFrame with
  | false =>
      cases hstream : b.endOfStream with
      | false => cases hlast <;> simp [hf, hs]
      | true => cases hlast <;> simp [hf, hs]
  | true =>
      cases hstream : b.endOfStream with
      | false =>
          cases hlast with
          | none h => simp [hf, hs]
          | frame n h hlength => simp [hf, hs, Int.natCast_inj]
      | true =>
          have hne : ∀ l : List CaptureCall, l.length ≤ 1 →
              ¬ List.Perm l ([.cbEndOfFrame b.nFilledLen] ++ [.cbEndOfStream]) := by
            intro l hl hperm
            have hlength := hperm.length_eq
            simp only [List.length_append, List.length_cons, List.length_nil] at hlength
            omega
          refine iff_of_false (hne _ ?_) (by simp [hf, hs])
          cases last with
          | none => exact Nat.zero_le 1
          | some n => exact Nat.le_refl 1

end Round

/-! ## The loop -/

/-- The first buffers and the others, as far as the stream goes. -/
def AllHandled (last : Option Nat) : List FilledBuffer → Prop
  | [] => True
  | b :: bs => Handled last b ∧ (b.endOfStream = false → AllHandled (lastFrame [b] last) bs)

theorem rounds_iff {e : Encoder} {last : Option Nat} (hlast : e.Behind last)
    (bs : List FilledBuffer) :
    List.Forall₂ List.Perm (e.rounds bs) (wanted bs) ↔ AllHandled last bs := by
  induction bs generalizing e last with
  | nil => simp [Encoder.rounds, wanted, AllHandled]
  | cons b bs ih =>
      rw [Encoder.rounds, wanted, AllHandled]
      by_cases hf : b.nFlags = OMX_BUFFERFLAG_ENDOFFRAME
      · obtain ⟨hframe, hstream⟩ := flags_endOfFrame hf
        have hnext : lastFrame [b] last = some b.nFilledLen := if_pos hf
        have hbehind : Encoder.Behind ⟨.EOF_S, b.nFilledLen⟩ (some b.nFilledLen) :=
          .frame b.nFilledLen rfl rfl
        rw [Encoder.FillBufferDone_frame hf, hstream, hnext, ← ih hbehind]
        simp [FilledBuffer.calls, Handled, hf, hframe, hstream]
      · by_cases hs : b.nFlags = OMX_BUFFERFLAG_EOS
        · obtain ⟨hframe, hstream⟩ := flags_endOfStream hs
          rw [Encoder.FillBufferDone_stream hs, hstream]
          simp [FilledBuffer.calls, Handled, hs, hframe, hstream]
        · have hcalls := other_calls_iff hlast hf hs
          have hgoes (hhandled : Handled last b) : b.endOfStream = false := by
            rcases hhandled with h | h | h | h
            · exact absurd h hf
            · exact absurd h hs
            · exact h.2.1
            · exact h.2.1
          have hround (calls : List CaptureCall) (h : List.Perm calls b.calls ↔ Handled last b) :
              List.Forall₂ List.Perm (calls :: e.rounds bs)
                (b.calls :: if b.endOfStream then [] else wanted bs) ↔
              Handled last b ∧
                (b.endOfStream = false → List.Forall₂ List.Perm (e.rounds bs) (wanted bs)) := by
            rw [List.forall₂_cons, h]
            refine and_congr_right fun hhandled => ?_
            rw [hgoes hhandled]
            simp
          rw [Encoder.FillBufferDone_other hf hs, lastFrame_other hf, ← ih hlast]
          cases hlast with
          | none hstatus =>
              rw [hstatus]
              exact hround [] hcalls
          | frame n hstatus hlength =>
              rw [hstatus, hlength]
              exact hround [.cbEndOfFrame n] hcalls

/-- In terms of the places where a buffer stands. -/
theorem allHandled_iff (last : Option Nat) (bs : List FilledBuffer) :
    AllHandled last bs ↔ ∀ before b behind, bs = before ++ b :: behind →
      (∀ c ∈ before, c.endOfStream = false) → Handled (lastFrame before last) b := by
  induction bs generalizing last with
  | nil => simp [AllHandled]
  | cons b bs ih =>
      rw [AllHandled]
      constructor
      · intro h before c behind heq hbefore
        cases before with
        | nil =>
            obtain ⟨rfl, -⟩ := List.cons.inj heq
            exact h.1
        | cons d before =>
            obtain ⟨rfl, htail⟩ := List.cons.inj heq
            have hrest := h.2 (hbefore b List.mem_cons_self)
            rw [lastFrame_cons]
            exact (ih _).mp hrest before c behind htail
              fun c hc => hbefore c (List.mem_cons_of_mem b hc)
      · intro h
        refine ⟨h [] b bs rfl (by simp), fun hstream => (ih _).mpr ?_⟩
        intro before c behind heq hbefore
        rw [← lastFrame_cons]
        refine h (b :: before) c behind (by rw [heq, List.cons_append]) ?_
        intro d hd
        cases List.mem_cons.mp hd with
        | inl heq => exact heq ▸ hstream
        | inr hd => exact hbefore d hd

/-- The loop makes the calls that the flags ask for precisely when it does right by every buffer
up to the first one that ends the stream. -/
theorem captures_iff (e : Encoder) (bs : List FilledBuffer) :
    Captures e bs ↔ ∀ before b behind, bs = before ++ b :: behind →
      (∀ c ∈ before, c.endOfStream = false) → Handled (lastFrame before none) b := by
  have hstart : Encoder.Behind { e with m_bufferStatus := .NONE_S } none := .none rfl
  rw [Captures, Encoder.capturing, rounds_iff hstart, allHandled_iff]

/-- Data that end a frame, and more data. -/
def frameAndSlice : List FilledBuffer :=
  [⟨OMX_BUFFERFLAG_ENDOFFRAME, 9000, by omega⟩, ⟨0, 80000, by omega⟩]

/-- The frame is announced twice. -/
theorem frame_announced_twice : ¬ Captures ⟨.NONE_S, 0⟩ frameAndSlice := by
  intro h
  have hrounds : Encoder.capturing ⟨.NONE_S, 0⟩ frameAndSlice =
      [[.cbEndOfFrame 9000], [.cbEndOfFrame 9000]] := by decide
  have hwanted : wanted frameAndSlice = [[.cbEndOfFrame 9000], []] := by decide
  rw [Captures, hrounds, hwanted, List.forall₂_cons, List.forall₂_cons] at h
  have hlength := h.2.1.length_eq
  cases hlength

/-! ## The session -/

/-- The flags of the buffers of a session. -/
def Buffer.nFlags : Buffer → UInt32
  | .slice => 0
  | .endOfFrame _ => OMX_BUFFERFLAG_ENDOFFRAME
  | .endOfStream => OMX_BUFFERFLAG_EOS

/-- A session knows buffers without a flag and with one flag alone, and takes these as the callback
does. -/
theorem Session.fillBufferDone_status (s : Session) (capture : Nat) (b : Buffer)
    (pBuffer : FilledBuffer) (h : pBuffer.nFlags = b.nFlags) (length : Int) :
    (s.fillBufferDone capture b).m_bufferStatus =
      (Encoder.FillBufferDone pBuffer ⟨s.m_bufferStatus, length⟩).m_bufferStatus := by
  cases b with
  | slice =>
      have hzero : pBuffer.nFlags = 0 := h
      have hf : pBuffer.nFlags ≠ OMX_BUFFERFLAG_ENDOFFRAME := by
        rw [hzero]
        decide
      have hs : pBuffer.nFlags ≠ OMX_BUFFERFLAG_EOS := by
        rw [hzero]
        decide
      rw [Encoder.FillBufferDone_other hf hs]
      rfl
  | endOfFrame size =>
      rw [Encoder.FillBufferDone_frame h]
      rfl
  | endOfStream =>
      rw [Encoder.FillBufferDone_stream h]
      rfl

end Acu.Camera
