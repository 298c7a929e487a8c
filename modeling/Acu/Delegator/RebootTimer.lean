import Acu.Core.CopyText
import Acu.Core.Signed
import Acu.Delegator.ServerTime

/-!
# The nightly reboot

`setRebootTimer` takes a time of day from the configuration and starts a timer that ends
when it is next that time. It goes by the first two tokens of the text, whatever they are.
-/

namespace Acu.Delegator

open Acu.Core Acu.Core.CMemory

/-- The members of `struct tm` that are read; there are no leap seconds in `time_t`. -/
structure LocalTime where
  tm_hour : Int
  tm_min : Int
  tm_sec : Int
  hour_bounds : 0 ≤ tm_hour ∧ tm_hour < 24
  min_bounds : 0 ≤ tm_min ∧ tm_min < 60
  sec_bounds : 0 ≤ tm_sec ∧ tm_sec < 60

/-- Seconds since midnight. -/
def LocalTime.seconds (now : LocalTime) : Int :=
  now.tm_hour * 3600 + now.tm_min * 60 + now.tm_sec

/-- The value of `diff`, an `int` at each operation. -/
def rebootDelay (hour min : Int) (now : LocalTime) : Option Int := do
  let hours ← signed? INT_MAX (hour - now.tm_hour)
  let hours ← signed? INT_MAX (hours * 60)
  let hours ← signed? INT_MAX (hours * 60)
  let mins ← signed? INT_MAX (min - now.tm_min)
  let mins ← signed? INT_MAX (mins * 60)
  let diff ← signed? INT_MAX (hours + mins)
  let diff ← signed? INT_MAX (diff - now.tm_sec)
  if diff ≤ 0 then signed? INT_MAX (diff + 24 * 60 * 60) else some diff

/-- `setRebootTimer(time_buf)`: the seconds that `m_RebootTimer` was started with. -/
def setRebootTimer (buf : CharArray 25) (time_buf : Bytes) (now : LocalTime) :
    Option (Option Int) := do
  let buf ← copyText buf time_buf
  match strtok (ascii ":") (← cstring buf.val) [] with
  | hour :: min :: _ => some (some (← rebootDelay (atoi hour) (atoi min) now))
  | _ => none -- `atoi(NULL)`

/-- A time of day that the configuration may ask for. -/
structure Clock where
  hour : Nat
  min : Nat
  hour_lt : hour < 24
  min_lt : min < 60

namespace Clock

/-- `HH:MM`. -/
def text (c : Clock) : Bytes := decimalZero 2 c.hour ++ 58 :: decimalZero 2 c.min

def seconds (c : Clock) : Int := c.hour * 3600 + c.min * 60

end Clock

/-- At a time of day the timer runs until then; for any other text there is none. -/
def RebootsAt (time_buf : Bytes) (now : LocalTime) (timer : Option (Option Int)) : Prop :=
  (∀ c : Clock, time_buf = c.text → ∃ d, timer = some (some d) ∧ 0 < d ∧ d ≤ 86400 ∧
    (now.seconds + d) % 86400 = c.seconds) ∧
  ((¬ ∃ c : Clock, time_buf = c.text) → timer = some none)

/-! ## Times of day -/

theorem atoi_twoDigits : ∀ n < 60, atoi (decimalZero 2 (n : Nat)) = n := by decide +kernel

theorem twoDigits_letters : ∀ n < 60, (decimalZero 2 (n : Nat)).length = 2 ∧
    ∀ c ∈ decimalZero 2 (n : Nat), c ∉ ascii ":" ∧ c ≠ 0 := by decide +kernel

theorem Clock.tokens (c : Clock) :
    strtok (ascii ":") c.text [] = [decimalZero 2 c.hour, decimalZero 2 c.min] := by
  obtain ⟨hlength, hhour⟩ := twoDigits_letters c.hour (by have := c.hour_lt; omega)
  obtain ⟨hlength', hmin⟩ := twoDigits_letters c.min c.min_lt
  have hne : [] ++ decimalZero 2 (c.hour : Int) ≠ [] :=
    List.ne_nil_of_length_pos (by simp [hlength])
  have hfirst := @strtok_token (ascii ":") 58 (by decide) _ (fun b hb => (hhour b hb).1)
    (decimalZero 2 c.min) [] hne
  have hlast : strtok (ascii ":") (decimalZero 2 c.min) [] = [decimalZero 2 c.min] := by
    have hpass := strtok_pass (fun b hb => (hmin b hb).1) [] []
    rw [List.append_nil, List.nil_append, strtok,
      if_neg (List.ne_nil_of_length_pos (by omega))] at hpass
    exact hpass
  rw [Clock.text, hfirst, hlast]
  rfl

/-- The time to the next such time of day: a whole day from the very moment on. -/
theorem rebootDelay_eq (c : Clock) (now : LocalTime) :
    ∃ d, rebootDelay c.hour c.min now = some d ∧ 0 < d ∧ d ≤ 86400 ∧
      (now.seconds + d) % 86400 = c.seconds := by
  have hint : INT_MAX = 2147483647 := rfl
  obtain ⟨h0, h24⟩ := now.hour_bounds
  obtain ⟨m0, m60⟩ := now.min_bounds
  obtain ⟨s0, s60⟩ := now.sec_bounds
  have hhour := c.hour_lt
  have hmin := c.min_lt
  have hseconds : now.seconds = now.tm_hour * 3600 + now.tm_min * 60 + now.tm_sec := rfl
  have hclock : c.seconds = c.hour * 3600 + c.min * 60 := rfl
  rw [rebootDelay, signed?_of_fits INT_MAX (c.hour - now.tm_hour) (by omega),
    Option.bind_eq_bind, Option.bind_some,
    signed?_of_fits INT_MAX ((c.hour - now.tm_hour) * 60) (by omega), Option.bind_some,
    signed?_of_fits INT_MAX ((c.hour - now.tm_hour) * 60 * 60) (by omega), Option.bind_some,
    signed?_of_fits INT_MAX (c.min - now.tm_min) (by omega), Option.bind_some,
    signed?_of_fits INT_MAX ((c.min - now.tm_min) * 60) (by omega), Option.bind_some,
    signed?_of_fits INT_MAX ((c.hour - now.tm_hour) * 60 * 60 + (c.min - now.tm_min) * 60)
      (by omega), Option.bind_some,
    signed?_of_fits INT_MAX ((c.hour - now.tm_hour) * 60 * 60 + (c.min - now.tm_min) * 60 -
      now.tm_sec) (by omega), Option.bind_some]
  by_cases hpast : (c.hour - now.tm_hour) * 60 * 60 + (c.min - now.tm_min) * 60 - now.tm_sec ≤ 0
  · rw [if_pos hpast, signed?_of_fits INT_MAX _ (by omega)]
    exact ⟨_, rfl, by omega, by omega, by omega⟩
  · rw [if_neg hpast]
    exact ⟨_, rfl, by omega, by omega, by omega⟩

theorem setRebootTimer_clock (buf : CharArray 25) (c : Clock) (now : LocalTime) :
    setRebootTimer buf c.text now = (rebootDelay c.hour c.min now).map some := by
  obtain ⟨hlength, hhour⟩ := twoDigits_letters c.hour (by have := c.hour_lt; omega)
  obtain ⟨hlength', hmin⟩ := twoDigits_letters c.min c.min_lt
  have hfits : c.text.length < 25 := by
    rw [Clock.text, List.length_append, List.length_cons, hlength, hlength']
    decide
  have h0 : 0 ∉ c.text := by
    simp only [Clock.text, List.mem_append, List.mem_cons, not_or]
    exact ⟨fun h => (hhour 0 h).2 rfl, by decide, fun h => (hmin 0 h).2 rfl⟩
  rw [setRebootTimer, copyText_of_lt buf hfits]
  simp only [Option.bind_eq_bind, Option.bind_some, cstring_put buf hfits h0, c.tokens]
  rw [atoi_twoDigits _ (by have := c.hour_lt; omega), atoi_twoDigits _ c.min_lt]
  cases rebootDelay c.hour c.min now with
  | none => rfl
  | some d => rfl

/-! ## Other texts -/

/-- The function is never left without a timer. -/
theorem setRebootTimer_not_idle (buf : CharArray 25) (time_buf : Bytes) (now : LocalTime) :
    setRebootTimer buf time_buf now ≠ some none := by
  intro h
  obtain ⟨copied, -, h⟩ := Option.bind_eq_some_iff.mp h
  obtain ⟨text, -, h⟩ := Option.bind_eq_some_iff.mp h
  split at h
  next =>
    obtain ⟨d, -, h⟩ := Option.bind_eq_some_iff.mp h
    cases h
  next => cases h

/-- What makes it undefined: a text that is too long for the array, or has no second token. -/
theorem setRebootTimer_undefined (buf : CharArray 25) {time_buf : Bytes} (h0 : 0 ∉ time_buf)
    (now : LocalTime)
    (h : 25 ≤ time_buf.length ∨ (strtok (ascii ":") time_buf []).length < 2) :
    setRebootTimer buf time_buf now = none := by
  rw [setRebootTimer]
  by_cases hfits : time_buf.length < 25
  · have htokens := h.resolve_left (by omega)
    rw [copyText_of_lt buf hfits]
    simp only [Option.bind_eq_bind, Option.bind_some, cstring_put buf hfits h0]
    split
    next htoks =>
      rw [htoks, List.length_cons, List.length_cons] at htokens
      omega
    next => rfl
  · rw [copyText, dif_neg hfits]
    rfl

/-- The configuration's `App::REBOOT_TIME`, which is there. -/
def RebootTime := { s : Bytes // s ≠ [] ∧ 0 ∉ s }

/-- The timer is right precisely for a time of day. -/
theorem rebootsAt_iff (buf : CharArray 25) (time_buf : RebootTime) (now : LocalTime) :
    RebootsAt time_buf.val now (setRebootTimer buf time_buf.val now) ↔
      ∃ c : Clock, time_buf.val = c.text := by
  constructor
  · rintro ⟨-, hother⟩
    by_contra hno
    exact setRebootTimer_not_idle buf time_buf.val now (hother hno)
  · intro hc
    refine ⟨fun c htext => ?_, fun hno => absurd hc hno⟩
    obtain ⟨d, hd, hbounds⟩ := rebootDelay_eq c now
    refine ⟨d, ?_, hbounds⟩
    rw [htext, setRebootTimer_clock, hd]
    rfl

/-- Midnight. -/
def midnightSharp : LocalTime := ⟨0, 0, 0, by decide, by decide, by decide⟩

/-- An hour that no day has is taken for one of the next day. -/
theorem hour_25_reboots :
    ¬ RebootsAt (ascii "25:00") midnightSharp
      (setRebootTimer ⟨List.replicate 25 0, List.length_replicate⟩ (ascii "25:00")
        midnightSharp) := by
  rintro ⟨-, hother⟩
  refine setRebootTimer_not_idle _ _ _ (hother ?_)
  rintro ⟨c, hc⟩
  have hhour : atoi (decimalZero 2 (c.hour : Nat)) = 25 := by
    have htoks := c.tokens
    rw [← hc] at htoks
    have htwo : strtok (ascii ":") (ascii "25:00") [] = [ascii "25", ascii "00"] := by decide
    rw [htwo, List.cons.injEq] at htoks
    rw [← htoks.1]
    decide
  rw [atoi_twoDigits _ (by have := c.hour_lt; omega)] at hhour
  have hlt := c.hour_lt
  omega

end Acu.Delegator
