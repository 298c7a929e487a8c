import Acu.Core.Decimal
import Acu.Delegator.CbTimer

/-!
# The time of the server

`getSeverTime` cuts a text into tokens and sets the clock from six of them. Whether it
did is not what it returns: with fewer tokens it returns true and leaves the clock
alone, and with other texts than a date and a time it sets the clock from whatever
numbers the tokens begin with.
-/

namespace Acu.Delegator

open Acu.Core Acu.Core.CMemory Employee Web
open Attendance (Tm)

/-! ## The clock -/

/-- `TimeCalls.set`, with the time the clock has been set to. -/
def TimeCalls.setClock (c : TimeCalls) (t : List Int) : Bool × Option Tm :=
  match t with
  | [year, mon, mday, hour, min, sec] =>
      let tm : Tm := ⟨year - 1900, mon - 1, mday, hour, min, sec⟩
      let tt := c.mktime tm
      if tt < 0 then (false, none) else if c.stime tt < 0 then (false, none) else (true, some tm)
  | _ => (true, none)

/-- `getSeverTime`, with the time the clock has been set to. -/
def setSeverTime (c : TimeCalls) : Exec Thrown (Bool × Option Tm) :=
  Exec.catchIf
    (do
      match ← request c.time_buf with
      | none => .undefined
      | some text =>
          match strtok (ascii "-T:") text [] with
          | [] => .undefined
          | toks => .returned (c.setClock ((toks.take 6).map atoi)))
    Thrown.isWebService_Except (.returned (false, none))

theorem TimeCalls.setClock_fst (c : TimeCalls) (t : List Int) : (c.setClock t).1 = c.set t := by
  unfold TimeCalls.setClock
  split
  next year mon mday hour min sec =>
    unfold TimeCalls.set
    by_cases htt : c.mktime ⟨year - 1900, mon - 1, mday, hour, min, sec⟩ < 0
    · have hge : ¬ 0 ≤ c.mktime ⟨year - 1900, mon - 1, mday, hour, min, sec⟩ := by omega
      simp only [if_pos htt, decide_eq_false hge, Bool.false_and]
    · have hge : 0 ≤ c.mktime ⟨year - 1900, mon - 1, mday, hour, min, sec⟩ := by omega
      simp only [if_neg htt, decide_eq_true hge, Bool.true_and]
      split
      next hst => exact (decide_eq_false (by omega)).symm
      next hst => exact (decide_eq_true (by omega)).symm
  next hno =>
    unfold TimeCalls.set
    split
    · exact (hno _ _ _ _ _ _ rfl).elim
    · rfl

/-- What is returned is what `getSeverTime` returns. -/
theorem getSeverTime_eq (c : TimeCalls) :
    getSeverTime c = (do let r ← setSeverTime c; return r.1) := by
  unfold getSeverTime setSeverTime
  cases c.time_buf with
  | error e => rfl
  | ok time_buf =>
      cases time_buf with
      | none => rfl
      | some text =>
          change Exec.catchIf (match strtok (ascii "-T:") text [] with
            | [] => .undefined
            | toks => .returned (c.set ((toks.take 6).map atoi))) _ _ =
            (Exec.catchIf (match strtok (ascii "-T:") text [] with
              | [] => .undefined
              | toks => .returned (c.setClock ((toks.take 6).map atoi))) _ _ >>= _)
          cases strtok (ascii "-T:") text [] with
          | nil => rfl
          | cons tok toks => exact congrArg Exec.returned (c.setClock_fst _).symm

/-! ## Dates and times -/

/-- Digits, at least one. -/
def Numeral := { ds : Bytes // ds ≠ [] ∧ ∀ c ∈ ds, isDigit c = true }

def Numeral.value (n : Numeral) : Nat := digitsValue 0 n.val

/-- The number as `atoi` reads it. -/
def Numeral.read (n : Numeral) : Int := min 2147483647 (n.value : Int)

/-- The fields of a date and a time. -/
structure Stamp where
  year : Numeral
  mon : Numeral
  mday : Numeral
  hour : Numeral
  min : Numeral
  sec : Numeral

namespace Stamp

/-- year-month-dayThour:minute:second -/
def text (t : Stamp) : Bytes :=
  t.year.val ++ 45 :: (t.mon.val ++ 45 :: (t.mday.val ++ 84 :: (t.hour.val ++ 58 ::
    (t.min.val ++ 58 :: t.sec.val))))

/-- The six numbers, as `mktime` takes them. -/
def tm (t : Stamp) : Tm :=
  ⟨(t.year.value : Int) - 1900, (t.mon.value : Int) - 1, t.mday.value, t.hour.value, t.min.value,
    t.sec.value⟩

/-- The text has the six fields at its start, and more behind the digits of the last one. -/
def Begins (t : Stamp) (s : Bytes) : Prop :=
  ∃ rest, s = t.text ++ rest ∧ ∀ c cs, rest = c :: cs → isDigit c = false

/-- Each of the numbers is an `int`. -/
def IsInt (t : Stamp) : Prop :=
  t.year.value ≤ 2147483647 ∧ t.mon.value ≤ 2147483647 ∧ t.mday.value ≤ 2147483647 ∧
    t.hour.value ≤ 2147483647 ∧ t.min.value ≤ 2147483647 ∧ t.sec.value ≤ 2147483647

/-- The numbers as `atoi` reads them. -/
def read (t : Stamp) : Tm :=
  ⟨t.year.read - 1900, t.mon.read - 1, t.mday.read, t.hour.read, t.min.read, t.sec.read⟩

theorem read_eq_tm_iff (t : Stamp) : t.read = t.tm ↔ t.IsInt := by
  simp only [read, tm, IsInt, Numeral.read, Tm.mk.injEq]
  omega

end Stamp

/-- The call returns, and returns true precisely when the text has the six fields and the clock
was set from their numbers. -/
def TellsTime (c : TimeCalls) : Prop :=
  ∃ b clock, getSeverTime c = .returned b ∧ setSeverTime c = .returned (b, clock) ∧
    (b = true ↔ ∃ text t, c.time_buf = .ok (some text) ∧ Stamp.Begins t text ∧
      clock = some t.tm)

/-! ## Tokens -/

section Tokens

variable {delims : Bytes}

/-- A token ends at the first separator behind it. -/
theorem strtok_token {d : UInt8} (hd : d ∈ delims) {s : Bytes} (hs : ∀ c ∈ s, c ∉ delims)
    (rest tok : Bytes) (hne : tok ++ s ≠ []) :
    strtok delims (s ++ d :: rest) tok = (tok ++ s) :: strtok delims rest [] := by
  induction s generalizing tok with
  | nil =>
      rw [List.append_nil] at hne ⊢
      rw [List.nil_append, strtok, if_pos hd, if_neg hne]
  | cons c s ih =>
      rw [List.cons_append, strtok, if_neg (hs c List.mem_cons_self),
        ih (fun b hb => hs b (List.mem_cons_of_mem c hb)) (tok ++ [c]) (by simp)]
      simp

/-- What is read of a token is its start. -/
theorem strtok_start (s tok : Bytes) (hne : tok ≠ []) :
    ∃ u v toks, s = u ++ v ∧ strtok delims s tok = (tok ++ u) :: toks := by
  induction s generalizing tok with
  | nil => exact ⟨[], [], [], rfl, by rw [strtok, if_neg hne, List.append_nil]⟩
  | cons c s ih =>
      by_cases hc : c ∈ delims
      · refine ⟨[], c :: s, strtok delims s [], rfl, ?_⟩
        rw [strtok, if_pos hc, if_neg hne, List.append_nil]
      · obtain ⟨u, v, toks, rfl, htoks⟩ := ih (tok ++ [c]) (by simp)
        refine ⟨c :: u, v, toks, rfl, ?_⟩
        rw [strtok, if_neg hc, htoks]
        simp

theorem strtok_pass {s : Bytes} (hs : ∀ c ∈ s, c ∉ delims) (rest tok : Bytes) :
    strtok delims (s ++ rest) tok = strtok delims rest (tok ++ s) := by
  induction s generalizing tok with
  | nil => rw [List.nil_append, List.append_nil]
  | cons c s ih =>
      rw [List.cons_append, strtok, if_neg (hs c List.mem_cons_self),
        ih (fun b hb => hs b (List.mem_cons_of_mem c hb))]
      simp

end Tokens

/-- A digit separates nothing. -/
theorem Numeral.not_separator (n : Numeral) : ∀ c ∈ n.val, c ∉ ascii "-T:" := by
  intro c hc hmem
  have hbounds := digit_bounds (n.property.2 c hc)
  have hcases : c = 45 ∨ c = 84 ∨ c = 58 := by simpa [ascii] using hmem
  rcases hcases with rfl | rfl | rfl <;> exact absurd hbounds (by decide)

/-- The number that `atoi` reads of a token that begins with a numeral. -/
theorem Numeral.atoi_eq (n : Numeral) {behind : Bytes}
    (h : ∀ c rest, behind = c :: rest → isDigit c = false) :
    atoi (n.val ++ behind) = n.read :=
  atoi_digits_stop n.property.1 n.property.2 h

theorem Numeral.atoi_self (n : Numeral) : atoi n.val = n.read := by
  have h : atoi (n.val ++ []) = n.read := n.atoi_eq fun c rest hc => by cases hc
  rwa [List.append_nil] at h

/-- Six numbers as a time. -/
def sixNumbers (t : List Int) : Option Tm :=
  match t with
  | [year, mon, mday, hour, min, sec] => some ⟨year - 1900, mon - 1, mday, hour, min, sec⟩
  | _ => none

/-- The numbers of the first six tokens. -/
def readTm (text : Bytes) : Option Tm :=
  sixNumbers (((strtok (ascii "-T:") text []).take 6).map atoi)

theorem readTm_begins {t : Stamp} {s : Bytes} (h : t.Begins s) : readTm s = some t.read := by
  rcases h with ⟨rest, rfl, hrest⟩
  have htoken (n : Numeral) {d : UInt8} (hd : d ∈ ascii "-T:") (more : Bytes) :
      strtok (ascii "-T:") (n.val ++ d :: more) [] = n.val :: strtok (ascii "-T:") more [] :=
    strtok_token hd n.not_separator more [] n.property.1
  have hlast : ∃ u toks, (∀ c cs, u = c :: cs → isDigit c = false) ∧
      strtok (ascii "-T:") (t.sec.val ++ rest) [] = (t.sec.val ++ u) :: toks := by
    obtain ⟨u, v, toks, rfl, htoks⟩ :=
      @strtok_start (ascii "-T:") rest t.sec.val t.sec.property.1
    refine ⟨u, toks, fun c cs hu => hrest c (cs ++ v) (by rw [hu]; rfl), ?_⟩
    rw [strtok_pass t.sec.not_separator]
    exact htoks
  obtain ⟨u, toks, hu, hsec⟩ := hlast
  have htext : t.text ++ rest = t.year.val ++ 45 :: (t.mon.val ++ 45 :: (t.mday.val ++ 84 ::
      (t.hour.val ++ 58 :: (t.min.val ++ 58 :: (t.sec.val ++ rest))))) := by
    simp [Stamp.text]
  rw [readTm, htext, htoken _ (by decide), htoken _ (by decide), htoken _ (by decide),
    htoken _ (by decide), htoken _ (by decide), hsec]
  simp only [List.take_succ_cons, List.take_zero, List.map_cons, List.map_nil,
    Numeral.atoi_self, Numeral.atoi_eq _ hu]
  rfl

/-! ## When the time is told -/

/-- The calls do not take the time. -/
def TimeCalls.Refuses (c : TimeCalls) (tm : Tm) : Prop :=
  c.mktime tm < 0 ∨ c.stime (c.mktime tm) < 0

/-- The clock is set from six numbers, unless they are refused. -/
theorem TimeCalls.setClock_cases (c : TimeCalls) (t : List Int) :
    (sixNumbers t = none ∧ c.setClock t = (true, none)) ∨
      ∃ tm, sixNumbers t = some tm ∧
        ((c.Refuses tm ∧ c.setClock t = (false, none)) ∨
          (¬ c.Refuses tm ∧ c.setClock t = (true, some tm))) := by
  unfold TimeCalls.setClock sixNumbers
  split
  next year mon mday hour min sec =>
    refine .inr ⟨_, rfl, ?_⟩
    by_cases htt : c.mktime ⟨year - 1900, mon - 1, mday, hour, min, sec⟩ < 0
    · exact .inl ⟨.inl htt, if_pos htt⟩
    · by_cases hst : c.stime (c.mktime ⟨year - 1900, mon - 1, mday, hour, min, sec⟩) < 0
      · exact .inl ⟨.inr hst, by simp only [if_neg htt, if_pos hst]⟩
      · refine .inr ⟨fun hno => ?_, by simp only [if_neg htt, if_neg hst]⟩
        cases hno with
        | inl hno => exact htt hno
        | inr hno => exact hst hno
  · exact .inl ⟨rfl, rfl⟩

/-- The ends of a call on a text with a token in it. -/
theorem setSeverTime_text {c : TimeCalls} {text : Bytes} (h : c.time_buf = .ok (some text))
    (htoks : strtok (ascii "-T:") text [] ≠ []) :
    (readTm text = none ∧ setSeverTime c = .returned (true, none)) ∨
      ∃ tm, readTm text = some tm ∧
        ((c.Refuses tm ∧ setSeverTime c = .returned (false, none)) ∨
          (¬ c.Refuses tm ∧ setSeverTime c = .returned (true, some tm))) := by
  have hcall : setSeverTime c =
      .returned (c.setClock (((strtok (ascii "-T:") text []).take 6).map atoi)) := by
    rw [setSeverTime, h]
    change Exec.catchIf (match strtok (ascii "-T:") text [] with
      | [] => .undefined
      | toks => .returned (c.setClock ((toks.take 6).map atoi))) _ _ = _
    cases hcut : strtok (ascii "-T:") text [] with
    | nil => exact absurd hcut htoks
    | cons tok toks => rfl
  rw [hcall]
  rcases c.setClock_cases (((strtok (ascii "-T:") text []).take 6).map atoi) with
    ⟨hread, hset⟩ | ⟨tm, hread, ⟨href, hset⟩ | ⟨href, hset⟩⟩
  · exact .inl ⟨hread, congrArg _ hset⟩
  · exact .inr ⟨tm, hread, .inl ⟨href, congrArg _ hset⟩⟩
  · exact .inr ⟨tm, hread, .inr ⟨href, congrArg _ hset⟩⟩

/-- In terms of the call that says how the clock is set. -/
theorem tellsTime_iff_set (c : TimeCalls) :
    TellsTime c ↔ ∃ b clock, setSeverTime c = .returned (b, clock) ∧
      (b = true ↔ ∃ text t, c.time_buf = .ok (some text) ∧ Stamp.Begins t text ∧
        clock = some t.tm) := by
  constructor
  · intro h
    rcases h with ⟨b, clock, -, hset, htells⟩
    exact ⟨b, clock, hset, htells⟩
  · intro h
    rcases h with ⟨b, clock, hset, htells⟩
    refine ⟨b, clock, ?_, hset, htells⟩
    rw [getSeverTime_eq, hset]
    rfl

/-- Without a token the text is no date, and `atoi` is called with a null pointer. -/
theorem setSeverTime_no_token {c : TimeCalls} {text : Bytes} (h : c.time_buf = .ok (some text))
    (htoks : strtok (ascii "-T:") text [] = []) : setSeverTime c = .undefined := by
  rw [setSeverTime, h]
  change Exec.catchIf (match strtok (ascii "-T:") text [] with
    | [] => .undefined
    | toks => .returned (c.setClock ((toks.take 6).map atoi))) _ _ = _
  rw [htoks]
  rfl

/-- For a text: it has the six fields and their numbers can be read, or numbers were read that the
system calls refuse. -/
theorem tellsTime_text {c : TimeCalls} {text : Bytes} (h : c.time_buf = .ok (some text)) :
    TellsTime c ↔ (∃ t, Stamp.Begins t text ∧ t.IsInt) ∨
      ∃ tm, readTm text = some tm ∧ c.Refuses tm := by
  rw [tellsTime_iff_set]
  have hothers : readTm text = none → ¬ ∃ t, Stamp.Begins t text := by
    intro hnone hbegins
    rcases hbegins with ⟨t, hbegins⟩
    rw [readTm_begins hbegins] at hnone
    cases hnone
  by_cases htoks : strtok (ascii "-T:") text [] = []
  · have hread : readTm text = none := by
      rw [readTm, htoks]
      rfl
    refine iff_of_false ?_ ?_
    · intro htells
      rcases htells with ⟨b, clock, hset, -⟩
      rw [setSeverTime_no_token h htoks] at hset
      cases hset
    · intro hcond
      rcases hcond with ⟨t, hbegins, -⟩ | ⟨tm, htm, -⟩
      · exact hothers hread ⟨t, hbegins⟩
      · rw [hread] at htm
        cases htm
  · rcases setSeverTime_text h htoks with ⟨hread, hset⟩ | ⟨tm, hread, ⟨href, hset⟩ | ⟨href, hset⟩⟩
    · refine iff_of_false ?_ ?_
      · intro htells
        rcases htells with ⟨b, clock, hset', htells⟩
        cases hset.symm.trans hset'
        obtain ⟨text', t, -, -, hclock⟩ := htells.mp rfl
        cases hclock
      · intro hcond
        rcases hcond with ⟨t, hbegins, -⟩ | ⟨tm, htm, -⟩
        · exact hothers hread ⟨t, hbegins⟩
        · rw [hread] at htm
          cases htm
    · refine iff_of_true ⟨false, none, hset, iff_of_false Bool.false_ne_true ?_⟩
        (.inr ⟨tm, hread, href⟩)
      intro htime
      rcases htime with ⟨text', t, -, -, hclock⟩
      cases hclock
    · constructor
      · intro htells
        rcases htells with ⟨b, clock, hset', htells⟩
        cases hset.symm.trans hset'
        obtain ⟨text', t, htext, hbegins, hclock⟩ := htells.mp rfl
        cases h.symm.trans htext
        have hread' := readTm_begins hbegins
        rw [hread, hclock] at hread'
        exact .inl ⟨t, hbegins, t.read_eq_tm_iff.mp (Option.some.inj hread').symm⟩
      · intro hcond
        rcases hcond with ⟨t, hbegins, hint⟩ | ⟨tm', htm, href'⟩
        · have hread' := readTm_begins hbegins
          rw [hread, t.read_eq_tm_iff.mpr hint] at hread'
          exact ⟨true, some tm, hset, iff_of_true rfl ⟨text, t, h, hbegins, hread'⟩⟩
        · cases hread.symm.trans htm
          exact absurd href' href

/-- The server sends a date without a time. -/
def dateOnly : TimeCalls where
  time_buf := .ok (some (ascii "2015-01-05"))
  mktime := fun _ => 1420416000
  stime := fun _ => 0

end Acu.Delegator
