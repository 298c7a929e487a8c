import Acu.Inih.Ini

/-!
# What a configuration file makes of its lines

The loop of the parser tells its handler of one line after the other. Errors stop
nothing: the first one is returned, and all the pairs are handed on.
-/

namespace Acu.Inih

open Acu.Core Acu.Core.CMemory

structure Call where
  «section» : Bytes
  name : Bytes
  value : Bytes
  deriving DecidableEq, Repr

/-- What a line is for the handler. -/
inductive Event where
  | quiet
  | called (c : Call)
  | wrong
  deriving DecidableEq, Repr

/-- The two strings that lines behind them are read with. -/
structure Context where
  «section» : Bytes
  prev_name : Bytes

namespace Context

def after (c : Context) : Line → Context
  | .header name => ⟨strncpy0 name MAX_SECTION, []⟩
  | .pair name _ => ⟨c.section, strncpy0 name MAX_NAME⟩
  | _ => c

def event (c : Context) : Line → Event
  | .ignored => .quiet
  | .header _ => .quiet
  | .pair name value => .called ⟨c.section, name, value⟩
  | .continued value => .called ⟨c.section, c.prev_name, value⟩
  | .malformed => .wrong

/-- The lines behind the first `lineno` ones. -/
def events (lineno : Nat) (c : Context) : List Bytes → List Event
  | [] => []
  | l :: ls =>
      let line := readLine (lineno + 1) c.prev_name l
      c.event line :: (c.after line).events (lineno + 1) ls

/-- The context behind the lines of a list. -/
def afterAll (lineno : Nat) (c : Context) : List Bytes → Context
  | [] => c
  | l :: ls => (c.after (readLine (lineno + 1) c.prev_name l)).afterAll (lineno + 1) ls

def start : Context := ⟨[], []⟩

end Context

/-- One event for each line of the file, as `fgets` cuts it. -/
def fileEvents (file : Bytes) : List Event :=
  Context.start.events 0 (lines file)

section Handlers

variable {σ : Type} (handler : Handler σ)

/-- The handler's data behind an event, and whether its line is in error. -/
def feed (user : σ) : Event → σ × Bool
  | .quiet => (user, false)
  | .called c =>
      ((handler user c.section c.name c.value).1,
        decide ((handler user c.section c.name c.value).2 = 0))
  | .wrong => (user, true)

def feedAll (user : σ) (es : List Event) : σ := es.foldl (fun u e => (feed handler u e).1) user

/-- The line with the index `k` is malformed, or the handler refuses it. -/
def InError (user : σ) (es : List Event) (k : Nat) : Prop :=
  ∃ e, es[k]? = some e ∧ (feed handler (feedAll handler user (es.take k)) e).2 = true

/-- The handler is given every pair, and the result is the first line in error, or 0. -/
structure ReadsOn (file : Bytes) (user : σ) : Prop where
  data : (ini_parse_file handler file user).1 = feedAll handler user (fileEvents file)
  clean : (ini_parse_file handler file user).2 = 0 ↔
    ∀ k, ¬ InError handler user (fileEvents file) k
  first : ∀ k, (ini_parse_file handler file user).2 = k + 1 ↔
    InError handler user (fileEvents file) k ∧
      ∀ j < k, ¬ InError handler user (fileEvents file) j

/-! ## The loop -/

/-- The number of the first line in error, behind `n` lines that are in none. -/
def firstError (user : σ) (n : Nat) : List Event → Nat
  | [] => 0
  | e :: es =>
      if (feed handler user e).2 then n + 1 else firstError (feed handler user e).1 (n + 1) es

theorem Parsing.fail_keeps (s : Parsing σ) :
    s.fail.user = s.user ∧ s.fail.section = s.section ∧ s.fail.prev_name = s.prev_name ∧
      s.fail.lineno = s.lineno := by
  unfold Parsing.fail
  split <;> exact ⟨rfl, rfl, rfl, rfl⟩

theorem Parsing.fail_error (s : Parsing σ) :
    s.fail.error = if s.error = 0 then s.lineno else s.error := by
  unfold Parsing.fail
  split <;> rfl

/-- The data, the context and the error behind a call. -/
theorem Parsing.call_spec (s : Parsing σ) (name value : Bytes) :
    (s.call handler name value).user = (handler s.user s.section name value).1 ∧
      (s.call handler name value).section = s.section ∧
      (s.call handler name value).prev_name = s.prev_name ∧
      (s.call handler name value).lineno = s.lineno ∧
      (s.call handler name value).error =
        if s.error = 0 ∧ (handler s.user s.section name value).2 = 0 then s.lineno
        else s.error := by
  unfold Parsing.call
  split
  next user ok hcall =>
    by_cases hok : ok = 0
    · simp only [hok, if_true]
      obtain ⟨huser, hsection, hprev, hlineno⟩ :=
        Parsing.fail_keeps { s with user := user }
      refine ⟨huser.trans (by rw [hcall]), hsection, hprev, hlineno, ?_⟩
      rw [Parsing.fail_error, hcall]
      simp [hok]
    · simp [hok, hcall]

/-- One line: the handler's data, the context, and the error. -/
theorem Parsing.take_spec (s : Parsing σ) (line : Line) :
    (s.take handler line).user =
        (feed handler s.user (Context.event ⟨s.section, s.prev_name⟩ line)).1 ∧
      (⟨(s.take handler line).section, (s.take handler line).prev_name⟩ : Context) =
        Context.after ⟨s.section, s.prev_name⟩ line ∧
      (s.take handler line).lineno = s.lineno ∧
      (s.take handler line).error =
        if s.error = 0 ∧
          (feed handler s.user (Context.event ⟨s.section, s.prev_name⟩ line)).2 = true
        then s.lineno else s.error := by
  cases line with
  | ignored => simp [Parsing.take, Context.event, Context.after, feed]
  | header name => simp [Parsing.take, Context.event, Context.after, feed]
  | pair name value =>
      obtain ⟨huser, hsection, hprev, hlineno, herror⟩ := Parsing.call_spec handler
        { s with prev_name := strncpy0 name MAX_NAME } name value
      refine ⟨huser, ?_, hlineno, ?_⟩
      · simp only [Parsing.take, Context.after, hsection, hprev]
      · simpa [Parsing.take, Context.event, feed] using herror
  | continued value =>
      obtain ⟨huser, hsection, hprev, hlineno, herror⟩ :=
        Parsing.call_spec handler s s.prev_name value
      refine ⟨huser, ?_, hlineno, ?_⟩
      · simp only [Parsing.take, Context.after, hsection, hprev]
      · simpa [Parsing.take, Context.event, feed] using herror
  | malformed =>
      obtain ⟨huser, hsection, hprev, hlineno⟩ := Parsing.fail_keeps s
      refine ⟨huser, ?_, hlineno, ?_⟩
      · simp only [Parsing.take, Context.after, hsection, hprev]
      · simpa [Parsing.take, Context.event, feed] using Parsing.fail_error s

theorem foldl_round (s : Parsing σ) (ls : List Bytes) :
    (ls.foldl (Parsing.round handler) s).user =
        feedAll handler s.user (Context.events s.lineno ⟨s.section, s.prev_name⟩ ls) ∧
      (ls.foldl (Parsing.round handler) s).error =
        if s.error = 0 then
          firstError handler s.user s.lineno (Context.events s.lineno ⟨s.section, s.prev_name⟩ ls)
        else s.error := by
  induction ls generalizing s with
  | nil =>
      refine ⟨rfl, ?_⟩
      show s.error = if s.error = 0 then 0 else s.error
      split
      next h => exact h
      next => rfl
  | cons l ls ih =>
      obtain ⟨huser, hcontext, hlineno, herror⟩ := Parsing.take_spec handler
        { s with lineno := s.lineno + 1 } (readLine (s.lineno + 1) s.prev_name l)
      obtain ⟨ihuser, iherror⟩ := ih (s.round handler l)
      have hround : s.round handler l = Parsing.take handler { s with lineno := s.lineno + 1 }
        (readLine (s.lineno + 1) s.prev_name l) := rfl
      rw [List.foldl_cons, ihuser, iherror, hround, hcontext, hlineno, huser, herror]
      refine ⟨rfl, ?_⟩
      simp only [Context.events, firstError]
      by_cases hs : s.error = 0
      · by_cases hf : (feed handler s.user (Context.event ⟨s.section, s.prev_name⟩
            (readLine (s.lineno + 1) s.prev_name l))).2 = true
        · simp [hs, hf]
        · simp [hs, hf]
      · simp [hs]

/-! ## The first error -/

variable {handler} {user : σ}

theorem inError_zero {e : Event} {es : List Event} :
    InError handler user (e :: es) 0 ↔ (feed handler user e).2 = true := by
  constructor
  · rintro ⟨e', he, h⟩
    cases he
    exact h
  · exact fun h => ⟨e, rfl, h⟩

theorem inError_succ {e : Event} {es : List Event} {k : Nat} :
    InError handler user (e :: es) (k + 1) ↔ InError handler (feed handler user e).1 es k :=
  Iff.rfl

/-- The results tell apart whether there is an error, and which is the first. -/
theorem firstError_spec (n : Nat) (es : List Event) :
    (firstError handler user n es = 0 ↔ ∀ k, ¬ InError handler user es k) ∧
      (firstError handler user n es ≠ 0 → n < firstError handler user n es) ∧
      ∀ k, firstError handler user n es = n + k + 1 ↔
        InError handler user es k ∧ ∀ j < k, ¬ InError handler user es j := by
  induction es generalizing user n with
  | nil =>
      have hnone : ∀ k, ¬ InError handler user [] k := by
        rintro k ⟨e, he, -⟩
        cases he
      refine ⟨iff_of_true rfl hnone, fun h => absurd rfl h, fun k => ?_⟩
      exact iff_of_false (by simp [firstError]) fun h => hnone k h.1
  | cons e es ih =>
      rw [firstError]
      by_cases he : (feed handler user e).2 = true
      · rw [if_pos he]
        have hzero : InError handler user (e :: es) 0 := inError_zero.mpr he
        refine ⟨iff_of_false (Nat.succ_ne_zero n) fun h => h 0 hzero, fun _ => Nat.lt_succ_self n,
          fun k => ?_⟩
        cases k with
        | zero => exact iff_of_true rfl ⟨hzero, fun j hj => absurd hj (Nat.not_lt_zero j)⟩
        | succ k => exact iff_of_false (by omega) fun h => h.2 0 (Nat.succ_pos k) hzero
      · rw [if_neg he]
        have hzero : ¬ InError handler user (e :: es) 0 := mt inError_zero.mp he
        obtain ⟨ihclean, ihpos, ihfirst⟩ := @ih (feed handler user e).1 (n + 1)
        refine ⟨ihclean.trans ?_, fun h => Nat.lt_of_succ_lt (ihpos h), fun k => ?_⟩
        · constructor
          · intro h k
            cases k with
            | zero => exact hzero
            | succ k => exact h k
          · exact fun h k => h (k + 1)
        · cases k with
          | zero =>
              refine iff_of_false (fun h => ?_) fun h => hzero h.1
              have hlt := ihpos (by omega)
              omega
          | succ k =>
              rw [show n + (k + 1) + 1 = n + 1 + k + 1 by omega, ihfirst k]
              refine and_congr_right fun _ => ⟨fun h j hj => ?_, fun h j hj => ?_⟩
              · cases j with
                | zero => exact hzero
                | succ j => exact h j (Nat.lt_of_succ_lt_succ hj)
              · exact h (j + 1) (Nat.succ_lt_succ hj)

end Handlers

section Files

variable {σ : Type} (handler : Handler σ) (file : Bytes) (user : σ)

theorem ini_parse_file_data :
    (ini_parse_file handler file user).1 = feedAll handler user (fileEvents file) :=
  (foldl_round handler (Parsing.start user) (lines file)).1

theorem ini_parse_file_result :
    (ini_parse_file handler file user).2 = firstError handler user 0 (fileEvents file) :=
  (foldl_round handler (Parsing.start user) (lines file)).2

theorem ini_parse_file_clean :
    (ini_parse_file handler file user).2 = 0 ↔
      ∀ k, ¬ InError handler user (fileEvents file) k := by
  rw [ini_parse_file_result]
  exact (firstError_spec 0 (fileEvents file)).1

end Files

/-- For every handler and every file. -/
theorem ini_parse_file_readsOn {σ : Type} (handler : Handler σ) (file : Bytes) (user : σ) :
    ReadsOn handler file user where
  data := ini_parse_file_data handler file user
  clean := ini_parse_file_clean handler file user
  first k := by
    have hfirst := (@firstError_spec σ handler user 0 (fileEvents file)).2.2 k
    rw [ini_parse_file_result, ← Nat.zero_add k]
    simpa using hfirst

end Acu.Inih
