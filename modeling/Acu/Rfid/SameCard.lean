import Acu.Core.Machine
import Acu.Rfid.Loop

/-!
# The check for the same card

Each reader class remembers the number and the time of the last card it reported, and
answers 0 when the same number comes again within six seconds. The time is the one of
the system clock, which the program itself sets; the check puts no lower bound on the
time that went by.
-/

namespace Acu.Rfid

open Acu.Core Acu.Core.CMemory

/-! ## The printed numbers -/

theorem decimalZero_three : ∀ n < 256,
    (decimalZero 3 (n : Nat)).length = 3 ∧ digitsValue 0 (decimalZero 3 (n : Nat)) = n := by
  decide +kernel

/-- A digit of the conversion `%x`. -/
def hexDigit (n : Nat) : UInt8 := (Nat.digitChar n).toNat.toUInt8

theorem hexDigit_inj : ∀ n < 16, ∀ k < 16, hexDigit n = hexDigit k → n = k := by decide +kernel

theorem hexZero_two : ∀ n < 256, hexZero 2 n = [hexDigit (n / 16), hexDigit (n % 16)] := by
  decide +kernel

theorem hexZero_two_inj {n k : Nat} (hn : n < 256) (hk : k < 256)
    (h : hexZero 2 n = hexZero 2 k) : n = k := by
  rw [hexZero_two n hn, hexZero_two k hk, List.cons.injEq, List.cons.injEq] at h
  have hhigh := hexDigit_inj (n / 16) (by omega) (k / 16) (by omega) h.1
  have hlow := hexDigit_inj (n % 16) (by omega) (k % 16) (by omega) h.2.1
  omega

theorem decimals_length (places : List Nat) (b : Bytes) :
    (decimals places b).length = 3 * places.length := by
  induction places with
  | nil => rfl
  | cons i places ih =>
      have h3 := (decimalZero_three (byteAt b i).toNat (byteAt b i).toNat_lt).1
      have hcons : decimals (i :: places) b =
          decimalZero 3 (byteAt b i).toNat ++ decimals places b := rfl
      rw [hcons, List.length_append, h3, ih, List.length_cons]
      omega

/-- The digits identify the bytes they were printed from. -/
theorem decimals_eq_iff (places : List Nat) (b b' : Bytes) :
    decimals places b = decimals places b' ↔ places.map (byteAt b) = places.map (byteAt b') := by
  induction places with
  | nil => exact iff_of_true rfl rfl
  | cons i places ih =>
      obtain ⟨h3, hv⟩ := decimalZero_three (byteAt b i).toNat (byteAt b i).toNat_lt
      obtain ⟨h3', hv'⟩ := decimalZero_three (byteAt b' i).toNat (byteAt b' i).toNat_lt
      have hcons (c : Bytes) : decimals (i :: places) c =
          decimalZero 3 (byteAt c i).toNat ++ decimals places c := rfl
      rw [hcons, hcons, List.map_cons, List.map_cons, List.cons.injEq, ← ih]
      constructor
      · intro h
        obtain ⟨hhead, htail⟩ := List.append_inj h (h3.trans h3'.symm)
        refine ⟨?_, htail⟩
        rw [← UInt8.toNat_inj, ← hv, ← hv', hhead]
      · intro h
        rw [h.1, h.2]

namespace SerialRfid900

theorem number_length (b : Bytes) : (number b).length = 4 := by
  rw [number, List.length_append, hexZero_two _ (byteAt b 18).toNat_lt,
    hexZero_two _ (byteAt b 19).toNat_lt]
  rfl

theorem number_eq_iff (b b' : Bytes) :
    number b = number b' ↔ [18, 19].map (byteAt b) = [18, 19].map (byteAt b') := by
  have hlen (n : UInt8) : (hexZero 2 n.toNat).length = 2 := by
    rw [hexZero_two _ n.toNat_lt]
    rfl
  simp only [List.map_cons, List.map_nil, List.cons.injEq, and_true]
  constructor
  · intro h
    obtain ⟨h18, h19⟩ := List.append_inj h ((hlen _).trans (hlen _).symm)
    have e18 := hexZero_two_inj (byteAt b 18).toNat_lt (byteAt b' 18).toNat_lt h18
    have e19 := hexZero_two_inj (byteAt b 19).toNat_lt (byteAt b' 19).toNat_lt h19
    exact ⟨UInt8.toNat_inj.mp e18, UInt8.toNat_inj.mp e19⟩
  · intro h
    rw [number, number, h.1, h.2]

end SerialRfid900

/-! ## The reader classes -/

/-- What a class puts into the shape of `requestData`, and that its numbers fill the buffer
and identify the bytes of the card. -/
structure ReaderClass where
  lengthOk : Int → Bool
  frameOk : Bytes → Bool
  SERIALNUMBER_BUF_SIZE : Nat
  number : Bytes → Bytes
  places : List Nat
  number_length : ∀ b, (number b).length = SERIALNUMBER_BUF_SIZE - 1
  size_gt : 1 < SERIALNUMBER_BUF_SIZE
  number_eq_iff : ∀ b b', number b = number b' ↔ places.map (byteAt b) = places.map (byteAt b')

/-- The values of `Rfid::MODE`. -/
inductive RfidMode where
  | rfid1356M
  | rfid1356M2
  | rfid900M
  deriving DecidableEq, Repr

namespace RfidMode

def requestData : RfidMode → RequestData
  | rfid1356M => SerialRfid1356.requestData
  | rfid1356M2 => SerialRfid1356_.requestData
  | rfid900M => SerialRfid900.requestData

def readerClass : RfidMode → ReaderClass
  | rfid1356M =>
      { lengthOk := fun len => len == 6
        frameOk := fun b => byteAt b 0 == 0x06 && byteAt b 5 == 0xFF
        SERIALNUMBER_BUF_SIZE := 13
        number := decimals [1, 2, 3, 4]
        places := [1, 2, 3, 4]
        number_length := decimals_length [1, 2, 3, 4]
        size_gt := by decide
        number_eq_iff := decimals_eq_iff [1, 2, 3, 4] }
  | rfid1356M2 =>
      { lengthOk := fun len => len == 5
        frameOk := SerialRfid1356_.frameOk
        SERIALNUMBER_BUF_SIZE := 13
        number := decimals [3, 2, 1, 0]
        places := [3, 2, 1, 0]
        number_length := decimals_length [3, 2, 1, 0]
        size_gt := by decide
        number_eq_iff := decimals_eq_iff [3, 2, 1, 0] }
  | rfid900M =>
      { lengthOk := fun len => decide (27 ≤ len)
        frameOk := fun b => byteAt b 0 == 0x7E && byteAt b 26 == 0xFF && byteAt b 5 == 0xA0
        SERIALNUMBER_BUF_SIZE := 5
        number := SerialRfid900.number
        places := [18, 19]
        number_length := SerialRfid900.number_length
        size_gt := by decide
        number_eq_iff := SerialRfid900.number_eq_iff }

theorem requestData_eq (mode : RfidMode) : mode.requestData =
    request mode.readerClass.lengthOk mode.readerClass.frameOk
      mode.readerClass.SERIALNUMBER_BUF_SIZE mode.readerClass.number := by
  cases mode with
  | rfid1356M => rfl
  | rfid1356M2 => rfl
  | rfid900M => rfl

/-- The frame of an accepted read. -/
def accepted (mode : RfidMode) : Outcome → Option Bytes
  | .got bytes =>
      if mode.readerClass.lengthOk bytes.length && mode.readerClass.frameOk bytes then some bytes
      else none
  | _ => none

/-- The bytes of a frame that its number is made of. -/
def card (mode : RfidMode) (bytes : Bytes) : Bytes := mode.readerClass.places.map (byteAt bytes)

end RfidMode

/-! ## Runs of requests -/

/-- The number and the time a reader remembers. -/
def Reader.remembered (r : Reader) : Bytes × Int := (r.m_serialnumberShadowBuf, r.shadowTime)

/-- A request: what its read meets and the clock at that time. -/
structure Request where
  outcome : Outcome
  t : Int

/-- A reader, with the card and the time of the last request that returned 1. -/
structure Watched where
  reader : Reader
  last : Option (Bytes × Int)

/-- After the constructor; the content of the number buffer is not set. -/
def Watched.initial (m_serialnumberBuf : Bytes) : Watched := ⟨⟨m_serialnumberBuf, [], 0⟩, none⟩

section Runs

variable (mode : RfidMode)

/-- A request that throws leaves the reader as it was; one that ends undefined ends the run. -/
def requests : Machine Watched Request where
  step s c :=
    match mode.requestData c.outcome c.t s.reader with
    | .returned (ret, r) =>
        some ⟨r, if ret = 1 then (mode.accepted c.outcome).map fun b => (mode.card b, c.t)
          else s.last⟩
    | .threw => some s
    | .undefined => none

/-- The card was reported last, not more than six seconds ago and not later than now. -/
def SameCard (last : Option (Bytes × Int)) (card : Bytes) (t : Int) : Prop :=
  ∃ t_last, last = some (card, t_last) ∧ 0 ≤ t - t_last ∧ t - t_last < 6

/-- An accepted frame of the same card is answered 0; any other one is answered 1 and
remembered; a rejected read changes nothing that is remembered. -/
def RequestLaw (s : Watched) (c : Request) : Prop :=
  ∀ ret r, mode.requestData c.outcome c.t s.reader = .returned (ret, r) →
    (∀ b, mode.accepted c.outcome = some b →
      (SameCard s.last (mode.card b) c.t → ret = 0 ∧ r.remembered = s.reader.remembered) ∧
      (¬ SameCard s.last (mode.card b) c.t →
        ret = 1 ∧ r.remembered = (mode.readerClass.number b, c.t))) ∧
    (mode.accepted c.outcome = none → ret = -1 ∧ r.remembered = s.reader.remembered)

/-- An accepted frame of the card reported last does not come before the time of that
report. -/
def ClockNotBefore (s : Watched) (c : Request) : Prop :=
  ∀ b t_last, mode.accepted c.outcome = some b → s.last = some (mode.card b, t_last) →
    t_last ≤ c.t

/-- What is remembered is the number and the time of the last report. -/
def Remembers (s : Watched) : Prop :=
  match s.last with
  | none => s.reader.m_serialnumberShadowBuf = []
  | some (card, t) => ∃ b, card = mode.card b ∧ s.reader.remembered = (mode.readerClass.number b, t)

variable {mode}

/-! ## One request -/

theorem request_accepted {b : Bytes} {o : Outcome} (h : mode.accepted o = some b) (t : Int)
    (r : Reader) : mode.requestData o t r =
      .returned
        (accept mode.readerClass.SERIALNUMBER_BUF_SIZE (mode.readerClass.number b) t r) := by
  cases o with
  | got bytes =>
      simp only [RfidMode.accepted] at h
      split at h
      next hok =>
        cases h
        rw [mode.requestData_eq, request_got, if_pos hok]
      next => cases h
  | timedOut => cases h
  | pollError => cases h
  | readError => cases h

theorem request_rejected {o : Outcome} (h : mode.accepted o = none) {t ret : Int}
    {r r' : Reader} (hr : mode.requestData o t r = .returned (ret, r')) : ret = -1 ∧ r' = r := by
  cases o with
  | got bytes =>
      simp only [RfidMode.accepted] at h
      split at h
      next => cases h
      next hok =>
        rw [mode.requestData_eq, request_got, if_neg hok] at hr
        cases hr
        exact ⟨rfl, rfl⟩
  | readError =>
      have hlen : mode.readerClass.lengthOk (-1) = false := by cases mode <;> rfl
      rw [mode.requestData_eq, request_readError hlen] at hr
      cases hr
      exact ⟨rfl, rfl⟩
  | timedOut =>
      rw [mode.requestData_eq] at hr
      cases hr
  | pollError =>
      rw [mode.requestData_eq] at hr
      cases hr

/-- The comparison of the numbers compares the cards. -/
theorem strncmpEq_remembered {s : Watched} (h : Remembers mode s) (b : Bytes) :
    strncmpEq (mode.readerClass.SERIALNUMBER_BUF_SIZE - 1) (mode.readerClass.number b)
      s.reader.m_serialnumberShadowBuf = true ↔
      ∃ t_last, s.last = some (mode.card b, t_last) := by
  have hlen := mode.readerClass.number_length
  have hsize := mode.readerClass.size_gt
  rw [strncmpEq, beq_iff_eq, List.take_of_length_le (Nat.le_of_eq (hlen b))]
  unfold Remembers at h
  split at h
  next hlast =>
    rw [h, hlast, List.take_nil]
    refine iff_of_false ?_ (fun ⟨_, h⟩ => nomatch h)
    intro hnil
    have hb := hlen b
    rw [hnil, List.length_nil] at hb
    omega
  next card t hlast =>
    rcases h with ⟨b', rfl, hrem⟩
    have hbuf : s.reader.m_serialnumberShadowBuf = mode.readerClass.number b' :=
      congrArg Prod.fst hrem
    rw [hbuf, List.take_of_length_le (Nat.le_of_eq (hlen b')),
      mode.readerClass.number_eq_iff b b', hlast]
    constructor
    · intro heq
      exact ⟨t, by rw [RfidMode.card, RfidMode.card, heq]⟩
    · intro h
      rcases h with ⟨t', ht'⟩
      exact (congrArg Prod.fst (Option.some.inj ht')).symm

/-- The answer to an accepted frame: 0 for the card reported last, read less than six seconds
after the report or at any time before it. -/
theorem accept_eq {s : Watched} (h : Remembers mode s) (b : Bytes) (t : Int) :
    ((∃ t_last, s.last = some (mode.card b, t_last) ∧ t - t_last < 6) ∧
      accept mode.readerClass.SERIALNUMBER_BUF_SIZE (mode.readerClass.number b) t s.reader =
        (0, { s.reader with m_serialnumberBuf := mode.readerClass.number b })) ∨
    ((¬ ∃ t_last, s.last = some (mode.card b, t_last) ∧ t - t_last < 6) ∧
      accept mode.readerClass.SERIALNUMBER_BUF_SIZE (mode.readerClass.number b) t s.reader =
        (1, ⟨mode.readerClass.number b, mode.readerClass.number b, t⟩)) := by
  have hcmp := strncmpEq_remembered h b
  have htime : ∀ t_last, s.last = some (mode.card b, t_last) → s.reader.shadowTime = t_last := by
    intro t_last hlast
    rw [Remembers, hlast] at h
    rcases h with ⟨b', -, hrem⟩
    exact congrArg Prod.snd hrem
  simp only [accept]
  split
  next hif =>
    rw [Bool.and_eq_true, decide_eq_true_eq] at hif
    obtain ⟨t_last, hlast⟩ := hcmp.mp hif.2
    exact .inl ⟨⟨t_last, hlast, htime t_last hlast ▸ hif.1⟩, rfl⟩
  next hif =>
    refine .inr ⟨?_, rfl⟩
    intro h
    rcases h with ⟨t_last, hlast, hlt⟩
    apply hif
    rw [Bool.and_eq_true, decide_eq_true_eq, htime t_last hlast]
    exact ⟨hlt, hcmp.mpr ⟨t_last, hlast⟩⟩

theorem remembers_initial (mode : RfidMode) (m_serialnumberBuf : Bytes) :
    Remembers mode (Watched.initial m_serialnumberBuf) := rfl

theorem remembers_step {s s' : Watched} {c : Request} (h : Remembers mode s)
    (hs : (requests mode).step s c = some s') : Remembers mode s' := by
  simp only [requests] at hs
  split at hs
  next ret r hr =>
    cases hs
    cases ha : mode.accepted c.outcome with
    | none =>
        obtain ⟨rfl, rfl⟩ := request_rejected ha hr
        exact h
    | some b =>
        rw [request_accepted ha] at hr
        obtain ⟨-, heq⟩ | ⟨-, heq⟩ := accept_eq h b c.t
        · rw [heq] at hr
          cases hr
          exact h
        · rw [heq] at hr
          cases hr
          exact ⟨b, rfl, rfl⟩
  next => cases hs; exact h
  next => cases hs

theorem requestLaw_rejected {s : Watched} {c : Request} (ha : mode.accepted c.outcome = none) :
    RequestLaw mode s c := by
  intro ret r hr
  obtain ⟨rfl, rfl⟩ := request_rejected ha hr
  refine ⟨fun b hb => ?_, fun _ => ⟨rfl, rfl⟩⟩
  rw [ha] at hb
  cases hb

theorem requestLaw_accepted_iff {s : Watched} {c : Request} {b : Bytes} {ret : Int} {r : Reader}
    (ha : mode.accepted c.outcome = some b)
    (hr : mode.requestData c.outcome c.t s.reader = .returned (ret, r)) :
    RequestLaw mode s c ↔
      (SameCard s.last (mode.card b) c.t → ret = 0 ∧ r.remembered = s.reader.remembered) ∧
      (¬ SameCard s.last (mode.card b) c.t →
        ret = 1 ∧ r.remembered = (mode.readerClass.number b, c.t)) := by
  constructor
  · intro h
    exact (h ret r hr).1 b ha
  · intro h ret' r' hr'
    obtain ⟨rfl, rfl⟩ := Prod.mk.inj (Ended.returned.inj (hr.symm.trans hr'))
    refine ⟨fun b' hb' => ?_, fun hnone => ?_⟩
    · obtain rfl : b = b' := Option.some.inj (ha.symm.trans hb')
      exact h
    · rw [ha] at hnone
      cases hnone

/-- A request follows the law exactly when the clock was not set back behind the report of
the card it reads. -/
theorem requestLaw_iff {s : Watched} (h : Remembers mode s) (c : Request) :
    RequestLaw mode s c ↔ ClockNotBefore mode s c := by
  cases ha : mode.accepted c.outcome with
  | none =>
      refine iff_of_true (requestLaw_rejected ha) ?_
      intro b t_last hb
      rw [ha] at hb
      cases hb
  | some b =>
      have hres := request_accepted ha c.t s.reader
      obtain ⟨⟨t_last, hlast, hlt⟩, heq⟩ | ⟨hno, heq⟩ := accept_eq h b c.t
      · -- the code answers 0, rightly if the clock reads no earlier than at the report
        have hsame : SameCard s.last (mode.card b) c.t ↔ t_last ≤ c.t := by
          simp only [SameCard, hlast, Option.some.injEq, Prod.mk.injEq, true_and]
          constructor
          · intro h
            rcases h with ⟨_, rfl, hge, -⟩
            omega
          · intro hle
            exact ⟨t_last, rfl, by omega, hlt⟩
        have hclock : ClockNotBefore mode s c ↔ t_last ≤ c.t := by
          simp only [ClockNotBefore, ha, hlast, Option.some.injEq, Prod.mk.injEq]
          constructor
          · intro hc
            exact hc b t_last rfl ⟨rfl, rfl⟩
          · intro hle b' t' _ ht
            rw [← ht.2]
            exact hle
        rw [heq] at hres
        rw [requestLaw_accepted_iff ha hres, hsame, hclock]
        constructor
        · intro hlaw
          by_contra hnot
          cases (hlaw.2 hnot).1
        · intro hle
          exact ⟨fun _ => ⟨rfl, rfl⟩, fun hnot => absurd hle hnot⟩
      · have hnot : ¬ SameCard s.last (mode.card b) c.t := by
          intro h
          rcases h with ⟨t_last, hlast, -, hlt⟩
          exact hno ⟨t_last, hlast, hlt⟩
        rw [heq] at hres
        rw [requestLaw_accepted_iff ha hres]
        refine iff_of_true ⟨fun hs => absurd hs hnot, fun _ => ⟨rfl, rfl⟩⟩ ?_
        intro b' t_last hb' hlast
        obtain rfl : b = b' := Option.some.inj (ha.symm.trans hb')
        by_contra hbefore
        exact hno ⟨t_last, hlast, by omega⟩

/-- Over every run of requests to every reader class. -/
theorem requestData_sameCard_iff (mode : RfidMode) (m_serialnumberBuf : Bytes)
    (cs : List Request) :
    (requests mode).AllSteps (RequestLaw mode) (Watched.initial m_serialnumberBuf) cs ↔
      (requests mode).AllSteps (ClockNotBefore mode) (Watched.initial m_serialnumberBuf) cs :=
  Machine.allSteps_congr (fun _ _ _ h _ hs => remembers_step h hs)
    (fun _ c _ h _ => requestLaw_iff h c) (remembers_initial mode m_serialnumberBuf) cs

/-- A card read again after the clock was set back by 500 seconds. -/
theorem requestData_clock_back :
    ¬ (requests .rfid1356M).AllSteps (RequestLaw .rfid1356M) (Watched.initial [])
      [⟨.got [6, 1, 2, 3, 4, 255], 1000⟩, ⟨.got [6, 1, 2, 3, 4, 255], 500⟩] := by
  intro h
  have hlaw := ((h _ rfl).2 _ rfl).1
  have hnot : ¬ SameCard (some ([1, 2, 3, 4], 1000)) [1, 2, 3, 4] 500 := by
    intro h
    rcases h with ⟨t, ht, hge, -⟩
    cases ht
    omega
  have hret := (((hlaw 0 _ rfl).1 [6, 1, 2, 3, 4, 255] rfl).2 hnot).1
  exact absurd hret (by decide)

end Runs

end Acu.Rfid
