import Acu.Core.CMemory

/-!
# Requests to the card readers

One `requestData` of each reader class, over the outcome of its serial read. The
classes differ in the frame they take and the number they make of it; the check
for the same card is the same in all of them.
-/

namespace Acu.Rfid

open Acu.Core Acu.Core.CMemory

/-- What the port does for one read: `poll` runs out of time or fails, or `::read` behind it
fails or delivers the bytes that then stand at the start of `m_reciveBuf`. -/
inductive Outcome where
  | timedOut
  | pollError
  | readError
  | got (bytes : Bytes)
  deriving DecidableEq, Repr

/-- The end of a call: `undefined` is the fall off the end of a function with a result. -/
inductive Ended (α : Type) where
  | returned (a : α)
  | threw
  | undefined
  deriving DecidableEq, Repr

/-- `AsyncSerial::read`: the length and the bytes. -/
def AsyncSerial.read : Outcome → Ended (Int × Bytes)
  | .got bytes => .returned (bytes.length, bytes)
  | .readError => .returned (-1, [])
  | .pollError => .undefined -- the throw is commented out
  | .timedOut => .threw

/-- The number buffers of a reader and the `static` time of its class. -/
structure Reader where
  m_serialnumberBuf : Bytes
  m_serialnumberShadowBuf : Bytes
  shadowTime : Int
  deriving DecidableEq, Repr

/-- `!strncmp(a, b, n)` of two strings. -/
def strncmpEq (n : Nat) (a b : Bytes) : Bool := a.take n == b.take n

/-- What follows an accepted frame at time `t`: 0 for the same card, 1 otherwise. -/
def accept (SERIALNUMBER_BUF_SIZE : Nat) (number : Bytes) (t : Int) (r : Reader) : Int × Reader :=
  let r := { r with m_serialnumberBuf := number }
  if t - r.shadowTime < 6 &&
      strncmpEq (SERIALNUMBER_BUF_SIZE - 1) r.m_serialnumberBuf r.m_serialnumberShadowBuf then
    (0, r)
  else (1, { r with m_serialnumberShadowBuf := number, shadowTime := t })

/-- The shape of `requestData`: a frame of the right length that passes its test is accepted. -/
def request (lengthOk : Int → Bool) (frameOk : Bytes → Bool) (SERIALNUMBER_BUF_SIZE : Nat)
    (number : Bytes → Bytes) (o : Outcome) (t : Int) (r : Reader) : Ended (Int × Reader) :=
  match AsyncSerial.read o with
  | .threw => .threw
  | .undefined => .undefined
  | .returned (len, m_reciveBuf) =>
      if !lengthOk len then .returned (-1, r)
      else if frameOk m_reciveBuf then
        .returned (accept SERIALNUMBER_BUF_SIZE (number m_reciveBuf) t r)
      else .returned (-1, r)

def byteAt (m_reciveBuf : Bytes) (i : Nat) : UInt8 := m_reciveBuf.getD i 0

/-- `sprintf(..., "%03d%03d%03d%03d", ...)` of the bytes at the given places. -/
def decimals (places : List Nat) (m_reciveBuf : Bytes) : Bytes :=
  places.flatMap fun i => decimalZero 3 (byteAt m_reciveBuf i).toNat

namespace SerialRfid1356

def requestData : Outcome → Int → Reader → Ended (Int × Reader) :=
  request (fun len => len == 6) (fun b => byteAt b 0 == 0x06 && byteAt b 5 == 0xFF) 13
    (decimals [1, 2, 3, 4])

end SerialRfid1356

namespace SerialRfid1356_

/-- `b0 ^ b1 ^ b2 ^ b3 == b4`, where the comparison binds first. -/
def frameOk (b : Bytes) : Bool :=
  byteAt b 0 ^^^ byteAt b 1 ^^^ byteAt b 2 ^^^ (if byteAt b 3 == byteAt b 4 then 1 else 0) != 0

/-- The read waits without a limit, so that it never runs out of time. -/
def requestData : Outcome → Int → Reader → Ended (Int × Reader) :=
  request (fun len => len == 5) frameOk 13 (decimals [3, 2, 1, 0])

end SerialRfid1356_

namespace SerialRfid900

/-- `sprintf(m_serialnumberBuf, "%02x%02x", m_reciveBuf[18], m_reciveBuf[19])`. -/
def number (b : Bytes) : Bytes := hexZero 2 (byteAt b 18).toNat ++ hexZero 2 (byteAt b 19).toNat

def requestData : Outcome → Int → Reader → Ended (Int × Reader) :=
  request (fun len => decide (27 ≤ len))
    (fun b => byteAt b 0 == 0x7E && byteAt b 26 == 0xFF && byteAt b 5 == 0xA0) 5 number

end SerialRfid900

/-! ## What a request returns -/

section Request

variable {lengthOk : Int → Bool} {frameOk : Bytes → Bool} {size : Nat} {number : Bytes → Bytes}

theorem accept_reports (size : Nat) (num : Bytes) (t : Int) (r : Reader) :
    (accept size num t r).1 = 0 ∨ (accept size num t r).1 = 1 := by
  simp only [accept]
  split
  · exact .inl rfl
  · exact .inr rfl

/-- A read that was received is answered with -1, or accepted. -/
theorem request_got (bytes : Bytes) (t : Int) (r : Reader) :
    request lengthOk frameOk size number (.got bytes) t r =
      .returned (if lengthOk bytes.length && frameOk bytes then accept size (number bytes) t r
        else (-1, r)) := by
  simp only [request, AsyncSerial.read]
  cases lengthOk bytes.length with
  | false => rfl
  | true => cases frameOk bytes with
    | false => rfl
    | true => rfl

/-- Outcomes that no request comes back from. -/
def Outcome.Fatal (o : Outcome) : Prop := o = .timedOut ∨ o = .pollError

instance (o : Outcome) : Decidable o.Fatal := inferInstanceAs (Decidable (_ ∨ _))

/-- Outcomes that the result -1 is for. -/
def Outcome.Failed (o : Outcome) : Prop := o = .timedOut ∨ o = .pollError ∨ o = .readError

/-- The request comes back exactly from the outcomes that are not fatal. -/
theorem request_returns_iff (o : Outcome) (t : Int) (r : Reader) :
    (∃ a, request lengthOk frameOk size number o t r = .returned a) ↔ ¬ o.Fatal := by
  cases o with
  | timedOut => exact iff_of_false (fun ⟨_, h⟩ => nomatch h) (fun h => h (.inl rfl))
  | pollError => exact iff_of_false (fun ⟨_, h⟩ => nomatch h) (fun h => h (.inr rfl))
  | readError =>
      refine iff_of_true ?_ (by rintro (h | h) <;> cases h)
      simp only [request, AsyncSerial.read]
      split
      · exact ⟨_, rfl⟩
      · split
        · exact ⟨_, rfl⟩
        · exact ⟨_, rfl⟩
  | got bytes =>
      exact iff_of_true ⟨_, request_got bytes t r⟩ (by rintro (h | h) <;> cases h)

/-- The results are -1, 0 and 1. -/
theorem request_ret {o : Outcome} {t ret : Int} {r r' : Reader}
    (h : request lengthOk frameOk size number o t r = .returned (ret, r')) :
    ret = -1 ∨ ret = 1 ∨ ret = 0 := by
  simp only [request] at h
  split at h
  · cases h
  · cases h
  next len m_reciveBuf _ =>
    split at h
    · cases h
      exact .inl rfl
    · split at h
      · have hret := accept_reports size (number m_reciveBuf) t r
        rw [Ended.returned.inj h] at hret
        exact .inr hret.symm
      · cases h
        exact .inl rfl

/-- A failed `::read` is the result -1, where no frame has a negative length. -/
theorem request_readError (h : lengthOk (-1) = false) (t : Int) (r : Reader) :
    request lengthOk frameOk size number .readError t r = .returned (-1, r) := by
  simp only [request, AsyncSerial.read, h, Bool.not_false, if_true]

end Request

end Acu.Rfid
