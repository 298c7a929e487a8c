import Acu.Rfid.Reader

/-!
# The reader thread

`SerialRfid::run` over an endless sequence of rounds. In each one the loop tests
`m_running` and makes a request, and reports what the request accepted.
-/

namespace Acu.Rfid

open Acu.Core

/-- What one round of the loop meets: the flag it tests, the outcome of the read and the time
of day. -/
structure Round where
  m_running : Bool
  outcome : Outcome
  t : Int

/-- The calls on the listener. -/
inductive Report where
  | onSameData
  | onData (m_serialnumberBuf : Bytes)
  deriving DecidableEq, Repr

inductive Status where
  | running
  | stopped
  | killed
  | undefined
  deriving DecidableEq, Repr

/-- `bNeedInterval` decides whether the next round sleeps first. Each report is kept with the
outcome it was made for. -/
structure Thread where
  reader : Reader
  status : Status
  bNeedInterval : Bool
  reports : List (Outcome × Report)

abbrev RequestData := Outcome → Int → Reader → Ended (Int × Reader)

namespace SerialRfid

/-- What the loop does with the result. -/
def dispatch (o : Outcome) (ret : Int) (reader : Reader) (s : Thread) : Thread :=
  if ret = -1 then { s with reader := reader, bNeedInterval := true }
  else if ret = 0 then
    { s with reader := reader, bNeedInterval := true, reports := s.reports ++ [(o, .onSameData)] }
  else
    { s with
      reader := reader
      bNeedInterval := false
      reports := s.reports ++ [(o, .onData reader.m_serialnumberBuf)] }

/-- One round. An exception leaves the loop and ends the thread. -/
def round (requestData : RequestData) (s : Thread) (i : Round) : Thread :=
  match s.status with
  | .running =>
      if !i.m_running then { s with status := .stopped }
      else
        match requestData i.outcome i.t s.reader with
        | .returned (ret, reader) => dispatch i.outcome ret reader s
        | .threw => { s with status := .killed }
        | .undefined => { s with status := .undefined }
  | _ => s

/-- The thread before round `n`. -/
def run (requestData : RequestData) (reader : Reader) (rounds : Nat → Round) : Nat → Thread
  | 0 => ⟨reader, .running, true, []⟩
  | n + 1 => round requestData (run requestData reader rounds n) (rounds n)

end SerialRfid

/-- Round `n` is begun: the thread was not told to stop, and no fatal outcome came before. -/
def Begun (rounds : Nat → Round) (n : Nat) : Prop :=
  (∀ k ≤ n, (rounds k).m_running = true) ∧ ∀ k < n, ¬ (rounds k).outcome.Fatal

section Loop

variable {requestData : RequestData} {reader : Reader} {rounds : Nat → Round}

/-- A reader class whose requests come back exactly from the outcomes that are not fatal. -/
def ReturnsUnlessFatal (requestData : RequestData) : Prop :=
  ∀ o t r, (∃ a, requestData o t r = .returned a) ↔ ¬ o.Fatal

theorem dispatch_status (o : Outcome) (ret : Int) (r : Reader) (s : Thread) :
    (SerialRfid.dispatch o ret r s).status = s.status := by
  unfold SerialRfid.dispatch
  split
  · rfl
  · split <;> rfl

/-- While the thread runs, a round keeps it running exactly when its flag is set and its
outcome is not fatal. -/
theorem round_running_iff (h : ReturnsUnlessFatal requestData) {s : Thread} (i : Round)
    (hs : s.status = .running) (hi : i.m_running = true) :
    (SerialRfid.round requestData s i).status = .running ↔ ¬ i.outcome.Fatal := by
  rw [← h i.outcome i.t s.reader]
  simp only [SerialRfid.round, hs, hi, Bool.not_true, Bool.false_eq_true, if_false]
  cases hr : requestData i.outcome i.t s.reader with
  | returned a => exact iff_of_true ((dispatch_status _ _ _ _).trans hs) ⟨a, rfl⟩
  | threw => exact iff_of_false (fun h => nomatch h) (fun ⟨_, h⟩ => nomatch h)
  | undefined => exact iff_of_false (fun h => nomatch h) (fun ⟨_, h⟩ => nomatch h)

/-- A round either keeps the reports, or a running thread adds the one for its outcome. -/
theorem round_reports (s : Thread) (i : Round) :
    (SerialRfid.round requestData s i).reports = s.reports ∨
      s.status = .running ∧ i.m_running = true ∧ ∃ ret r' report,
        requestData i.outcome i.t s.reader = .returned (ret, r') ∧ ret ≠ -1 ∧
        (SerialRfid.round requestData s i).reports = s.reports ++ [(i.outcome, report)] := by
  unfold SerialRfid.round
  split
  next hs =>
    split
    · exact .inl rfl
    next hi =>
      split
      next ret r' hr =>
        unfold SerialRfid.dispatch
        split
        · exact .inl rfl
        next hret =>
          refine .inr ⟨hs, by simpa using hi, ret, r', ?_⟩
          split
          · exact ⟨_, hr, hret, rfl⟩
          · exact ⟨_, hr, hret, rfl⟩
      · exact .inl rfl
      · exact .inl rfl
  · exact .inl rfl

/-- Only a thread that ran before runs on, and then its flag was set. -/
theorem running_of_round {s : Thread} {i : Round}
    (h : (SerialRfid.round requestData s i).status = .running) :
    s.status = .running ∧ i.m_running = true := by
  unfold SerialRfid.round at h
  split at h
  next hs =>
    split at h
    · cases h
    next hi => exact ⟨hs, by simpa using hi⟩
  next hs => exact absurd h hs

/-- A round that a running thread makes is begun. -/
theorem begun_of_running (h : ReturnsUnlessFatal requestData) {n : Nat}
    (hs : (SerialRfid.run requestData reader rounds n).status = .running)
    (hn : (rounds n).m_running = true) : Begun rounds n := by
  induction n with
  | zero => exact ⟨fun k hk => (Nat.le_zero.mp hk) ▸ hn, fun k hk => absurd hk (Nat.not_lt_zero k)⟩
  | succ n ih =>
      obtain ⟨hs', hn'⟩ := running_of_round hs
      obtain ⟨hflags, hfatal⟩ := ih hs' hn'
      have hlast := (round_running_iff h (rounds n) hs' hn').mp hs
      refine ⟨fun k hk => ?_, fun k hk => ?_⟩
      · rcases Nat.le_succ_iff.mp hk with hk | rfl
        · exact hflags k hk
        · exact hn
      · rcases Nat.lt_succ_iff_lt_or_eq.mp hk with hk | rfl
        · exact hfatal k hk
        · exact hlast

end Loop

/-! ## Staying alive -/

/-- The loop goes on as long as it is not told to stop, and whatever fails is the result -1. -/
structure KeepsIterating (requestData : RequestData) (reader : Reader) (rounds : Nat → Round) :
    Prop where
  alive : ∀ n, (∀ k < n, (rounds k).m_running = true) →
    (SerialRfid.run requestData reader rounds n).status = .running
  fails : ∀ n, (∀ k ≤ n, (rounds k).m_running = true) → (rounds n).outcome.Failed →
    requestData (rounds n).outcome (rounds n).t
        (SerialRfid.run requestData reader rounds n).reader =
      .returned (-1, (SerialRfid.run requestData reader rounds n).reader)

/-- That is so exactly when no read before the stop runs out of time and no `poll` fails. -/
theorem keepsIterating_iff_of_request {requestData : RequestData}
    (h : ReturnsUnlessFatal requestData)
    (hread : ∀ t r, requestData .readError t r = .returned (-1, r)) (reader : Reader)
    (rounds : Nat → Round) :
    KeepsIterating requestData reader rounds ↔
      ∀ n, (∀ k ≤ n, (rounds k).m_running = true) → ¬ (rounds n).outcome.Fatal := by
  constructor
  · intro halive n hn
    have hrun := halive.alive n fun k hk => hn k (Nat.le_of_lt hk)
    have hnext := halive.alive (n + 1) fun k hk => hn k (Nat.le_of_lt_succ hk)
    exact (round_running_iff h (rounds n) hrun (hn n (Nat.le_refl n))).mp hnext
  · intro hgood
    refine ⟨fun n hn => ?_, fun n hn hfail => ?_⟩
    · induction n with
      | zero => rfl
      | succ n ih =>
          have hrun := ih fun k hk => hn k (Nat.lt_succ_of_lt hk)
          have hall : ∀ k ≤ n, (rounds k).m_running = true := fun k hk =>
            hn k (Nat.lt_succ_of_le hk)
          exact (round_running_iff h (rounds n) hrun (hn n (Nat.lt_succ_self n))).mpr (hgood n hall)
    · rcases hfail with ho | ho | ho
      · exact absurd (.inl ho) (hgood n hn)
      · exact absurd (.inr ho) (hgood n hn)
      · rw [ho]
        exact hread _ _

/-- For each of the three readers. -/
theorem keepsIterating_iff (reader : Reader) (rounds : Nat → Round) :
    let NoneFatal := ∀ n, (∀ k ≤ n, (rounds k).m_running = true) → ¬ (rounds n).outcome.Fatal
    (KeepsIterating SerialRfid1356.requestData reader rounds ↔ NoneFatal) ∧
      (KeepsIterating SerialRfid1356_.requestData reader rounds ↔ NoneFatal) ∧
      (KeepsIterating SerialRfid900.requestData reader rounds ↔ NoneFatal) :=
  ⟨keepsIterating_iff_of_request request_returns_iff (request_readError rfl) reader rounds,
    keepsIterating_iff_of_request request_returns_iff (request_readError rfl) reader rounds,
    keepsIterating_iff_of_request request_returns_iff (request_readError rfl) reader rounds⟩

/-- A reader that no card comes near: its first read runs out of time. -/
def silent : Nat → Round := fun _ => ⟨true, .timedOut, 0⟩

theorem silent_kills_reader :
    ¬ KeepsIterating SerialRfid1356.requestData ⟨[], [], 0⟩ silent ∧
      (SerialRfid.run SerialRfid1356.requestData ⟨[], [], 0⟩ silent 1).status = .killed := by
  refine ⟨fun h => ?_, rfl⟩
  have halive := h.alive 1 fun _ _ => rfl
  cases halive

/-! ## Frames of the 1356M2 reader -/

/-- The last byte is the exclusive or of the others. -/
def ChecksumOk (b0 b1 b2 b3 b4 : UInt8) : Prop := b0 ^^^ b1 ^^^ b2 ^^^ b3 = b4

/-- The frames over which the test of the code and the checksum agree. -/
def TestAgrees (b0 b1 b2 b3 b4 : UInt8) : Prop :=
  b0 ^^^ b1 ^^^ b2 = 0 ∨ b0 ^^^ b1 ^^^ b2 = b3 ^^^ b4 ∨ (b3 = b4 ∧ b0 ^^^ b1 ^^^ b2 = 1)

theorem xor_eq_iff_eq_xor (x b c : UInt8) : x ^^^ b = c ↔ x = b ^^^ c := by
  constructor
  · rintro rfl
    rw [UInt8.xor_comm x b, ← UInt8.xor_assoc, UInt8.xor_self, UInt8.zero_xor]
  · rintro rfl
    rw [UInt8.xor_comm b c, UInt8.xor_assoc, UInt8.xor_self, UInt8.xor_zero]

theorem frameOk_iff (b0 b1 b2 b3 b4 : UInt8) :
    SerialRfid1356_.frameOk [b0, b1, b2, b3, b4] = true ↔
      b0 ^^^ b1 ^^^ b2 ≠ if b3 = b4 then 1 else 0 := by
  change (b0 ^^^ b1 ^^^ b2 ^^^ (if b3 == b4 then 1 else 0) != 0) = true ↔ _
  rw [bne_iff_ne, ne_eq, UInt8.xor_eq_zero_iff]
  simp only [beq_iff_eq, ne_eq]

/-- The test accepts a frame exactly when its checksum is right, on the frames of the one
kind only. -/
theorem frameOk_iff_checksum (b0 b1 b2 b3 b4 : UInt8) :
    (SerialRfid1356_.frameOk [b0, b1, b2, b3, b4] = true ↔ ChecksumOk b0 b1 b2 b3 b4) ↔
      TestAgrees b0 b1 b2 b3 b4 := by
  rw [frameOk_iff, ChecksumOk, xor_eq_iff_eq_xor, TestAgrees]
  generalize b0 ^^^ b1 ^^^ b2 = x
  by_cases hb : b3 = b4
  · subst hb
    rw [if_pos rfl, UInt8.xor_self]
    by_cases h0 : x = 0
    · subst h0
      exact iff_of_true (iff_of_true (by decide) rfl) (.inl rfl)
    · by_cases h1 : x = 1
      · subst h1
        exact iff_of_true (iff_of_false (fun h => h rfl) h0) (.inr (.inr ⟨rfl, rfl⟩))
      · refine iff_of_false (fun h => h0 (h.mp h1)) ?_
        rintro (h | h | ⟨_, h⟩)
        · exact h0 h
        · exact h0 h
        · exact h1 h
  · rw [if_neg hb]
    have hne : b3 ^^^ b4 ≠ 0 := fun h => hb (UInt8.xor_eq_zero_iff.mp h)
    by_cases h0 : x = 0
    · subst h0
      exact iff_of_true (iff_of_false (fun h => h rfl) (Ne.symm hne)) (.inl rfl)
    · by_cases hx : x = b3 ^^^ b4
      · exact iff_of_true (iff_of_true h0 hx) (.inr (.inl hx))
      · refine iff_of_false (fun h => hx (h.mp h0)) ?_
        rintro (h | h | ⟨h, _⟩)
        · exact h0 h
        · exact hx h
        · exact hb h

/-- What the reader reports, if it does, is a frame that its test accepts. -/
theorem requestData_reports_iff (o : Outcome) (t : Int) (r : Reader) :
    (∃ ret r', SerialRfid1356_.requestData o t r = .returned (ret, r') ∧ (ret = 1 ∨ ret = 0)) ↔
      ∃ b0 b1 b2 b3 b4, o = .got [b0, b1, b2, b3, b4] ∧
        SerialRfid1356_.frameOk [b0, b1, b2, b3, b4] = true := by
  constructor
  · intro h
    rcases h with ⟨ret, r', h, hret⟩
    cases o with
    | timedOut => cases h
    | pollError => cases h
    | readError =>
        rw [SerialRfid1356_.requestData, request_readError rfl] at h
        cases h
        rcases hret with h | h <;> cases h
    | got bytes =>
        rw [SerialRfid1356_.requestData, request_got] at h
        cases hok : ((bytes.length : Int) == 5) && SerialRfid1356_.frameOk bytes with
        | false =>
            rw [hok] at h
            cases h
            rcases hret with h | h <;> cases h
        | true =>
            obtain ⟨hlen, hframe⟩ := Bool.and_eq_true_iff.mp hok
            have hfive : bytes.length = 5 := by
              have := beq_iff_eq.mp hlen
              omega
            match bytes, hfive with
            | [b0, b1, b2, b3, b4], _ => exact ⟨b0, b1, b2, b3, b4, rfl, hframe⟩
  · intro h
    rcases h with ⟨b0, b1, b2, b3, b4, rfl, hframe⟩
    rw [SerialRfid1356_.requestData, request_got, hframe]
    refine ⟨_, _, rfl, ?_⟩
    exact (accept_reports 13 _ t r).symm

/-- The thread of the 1356M2 reader. -/
def thread1356M2 (reader : Reader) (rounds : Nat → Round) (n : Nat) : Thread :=
  SerialRfid.run SerialRfid1356_.requestData reader rounds n

/-- In every round that is begun, a frame is reported exactly when its checksum is right, and
no report was ever made for anything else. -/
structure ReportsByChecksum (reader : Reader) (rounds : Nat → Round) : Prop where
  reported : ∀ n, Begun rounds n → ∀ b0 b1 b2 b3 b4,
    (rounds n).outcome = .got [b0, b1, b2, b3, b4] →
    ((∃ ret r', SerialRfid1356_.requestData (rounds n).outcome (rounds n).t
        (thread1356M2 reader rounds n).reader = .returned (ret, r') ∧ (ret = 1 ∨ ret = 0)) ↔
      ChecksumOk b0 b1 b2 b3 b4)
  reports : ∀ n, ∀ e ∈ (thread1356M2 reader rounds n).reports,
    ∃ b0 b1 b2 b3 b4, e.1 = .got [b0, b1, b2, b3, b4] ∧ ChecksumOk b0 b1 b2 b3 b4

/-- The frames are reported by their checksum exactly when every frame that is read is one
over which the test and the checksum agree. -/
theorem reportsByChecksum_iff (reader : Reader) (rounds : Nat → Round) :
    ReportsByChecksum reader rounds ↔
      ∀ n, Begun rounds n → ∀ b0 b1 b2 b3 b4,
        (rounds n).outcome = .got [b0, b1, b2, b3, b4] → TestAgrees b0 b1 b2 b3 b4 := by
  have hframe : ∀ (o : Outcome) (t : Int) (r : Reader) (b0 b1 b2 b3 b4 : UInt8),
      o = .got [b0, b1, b2, b3, b4] →
      ((∃ ret r', SerialRfid1356_.requestData o t r = .returned (ret, r') ∧ (ret = 1 ∨ ret = 0)) ↔
        SerialRfid1356_.frameOk [b0, b1, b2, b3, b4] = true) := by
    intro o t r b0 b1 b2 b3 b4 ho
    rw [requestData_reports_iff]
    constructor
    · intro h
      rcases h with ⟨c0, c1, c2, c3, c4, hc, hok⟩
      cases ho.symm.trans hc
      exact hok
    · exact fun hok => ⟨b0, b1, b2, b3, b4, ho, hok⟩
  constructor
  · intro h n hn b0 b1 b2 b3 b4 ho
    rw [← frameOk_iff_checksum, ← h.reported n hn b0 b1 b2 b3 b4 ho]
    exact (hframe _ _ _ b0 b1 b2 b3 b4 ho).symm
  · intro h
    refine ⟨fun n hn b0 b1 b2 b3 b4 ho => ?_, fun n => ?_⟩
    · rw [hframe _ _ _ b0 b1 b2 b3 b4 ho]
      exact (frameOk_iff_checksum b0 b1 b2 b3 b4).mpr (h n hn b0 b1 b2 b3 b4 ho)
    · induction n with
      | zero => exact fun e he => absurd he List.not_mem_nil
      | succ n ih =>
          intro e he
          rcases @round_reports SerialRfid1356_.requestData (thread1356M2 reader rounds n)
              (rounds n) with hsame | ⟨hs, hi, ret, r', report, hr, hret, hadd⟩
          · exact ih e (hsame ▸ he)
          · have he' : e ∈ (thread1356M2 reader rounds n).reports ++
                [((rounds n).outcome, report)] := hadd ▸ he
            rcases List.mem_append.mp he' with he' | he'
            · exact ih e he'
            · rw [List.mem_singleton.mp he']
              have hn : Begun rounds n := begun_of_running request_returns_iff hs hi
              have hreported := (request_ret hr).resolve_left hret
              obtain ⟨b0, b1, b2, b3, b4, ho, hok⟩ :=
                (requestData_reports_iff _ _ _).mp ⟨ret, r', hr, hreported⟩
              refine ⟨b0, b1, b2, b3, b4, ho, ?_⟩
              exact ((frameOk_iff_checksum b0 b1 b2 b3 b4).mpr (h n hn b0 b1 b2 b3 b4 ho)).mp hok

/-- Reads of one frame over and over. -/
def sameFrame : Nat → Round := fun _ => ⟨true, .got [1, 0, 0, 2, 4], 100⟩

/-- A frame whose checksum is wrong goes to `onData`. -/
theorem wrong_checksum_reported :
    ¬ ReportsByChecksum ⟨[], [], 0⟩ sameFrame ∧
      (thread1356M2 ⟨[], [], 0⟩ sameFrame 1).reports =
        [(.got [1, 0, 0, 2, 4], .onData (ascii "002000000001"))] := by
  have hreports : (thread1356M2 ⟨[], [], 0⟩ sameFrame 1).reports =
      [(.got [1, 0, 0, 2, 4], .onData (ascii "002000000001"))] := by decide
  refine ⟨fun h => ?_, hreports⟩
  obtain ⟨b0, b1, b2, b3, b4, ho, hsum⟩ := h.reports 1 _ (hreports ▸ List.mem_singleton_self _)
  cases ho
  exact absurd hsum (by unfold ChecksumOk; decide)

end Acu.Rfid
