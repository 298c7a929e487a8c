import Acu.Core.CopyText
import Acu.Core.Search
import Acu.Tools.Utils

/-!
# Lines of the log

A message passes through three arrays before its line is formatted: `__log_print` cuts
it off, an `Entry` copies it behind its tag, and `run` prints tag and message between
the numbers.
-/

namespace Acu.Tools

open Acu.Core Acu.Core.CMemory

def Short := { v : Int // -32768 ≤ v ∧ v ≤ 32767 }

/-- The members that `toString` prints. -/
structure Time where
  m_hour : Short
  m_minute : Short
  m_second : Short
  m_ms : Short

namespace Time

def text (t : Time) : Bytes :=
  decimal t.m_hour.val ++ ascii ":" ++ decimal t.m_minute.val ++ ascii ":" ++
    decimal t.m_second.val ++ ascii ":" ++ decimal t.m_ms.val

/-- `toString()`: what its static array holds afterwards. -/
def toString (buf : CharArray 32) (t : Time) : Option (CharArray 32) := copyText buf t.text

end Time

structure Entry where
  m_pri : Int
  m_threadID : UInt64
  m_tag : CharArray 40
  m_msg : CharArray 946
  m_t : Time

/-- `Entry(pri, tag, msg, tid, t)`, in memory that holds anything. -/
def Entry.new (m_tag : CharArray 40) (m_msg : CharArray 946) (pri : Int) (tag msg : Bytes)
    (tid : UInt64) (t : Time) : Entry where
  m_pri := pri
  m_threadID := tid
  m_tag := strncpy m_tag tag 40 (Nat.le_refl 40)
  m_msg := strncpy m_msg msg 946 (Nat.le_refl 946)
  m_t := t

/-- A call of `__log_print`, its arguments printed to `text`, on a thread at a time. -/
structure LogCall where
  prio : Int
  tag : Bytes
  text : Bytes
  tid : UInt64
  time : Time
  tag_nul : 0 ∉ tag
  text_nul : 0 ∉ text

/-- What the arrays hold before, and what stands in memory behind an entry's message. -/
structure LogMemory where
  printed : CharArray 946
  m_tag : CharArray 40
  m_msg : CharArray 946
  behind : Bytes
  time : CharArray 32
  buf : CharArray 1024

namespace LogService

/-- `__log_print` with a service there, up to the entry that is queued. -/
def log_print (m : LogMemory) (c : LogCall) : Option Entry := do
  let msg ← cstring (vsnprintf (n := 945) m.printed c.text).val
  some (Entry.new m.m_tag m.m_msg c.prio c.tag msg c.tid c.time)

/-- The line that `run` formats. A string that its array does not end goes on behind it, so a
tag into the message. -/
def format (m : LogMemory) (e : Entry) : Option (CharArray 1024) := do
  let tag ← cstring (e.m_tag.val ++ (e.m_msg.val ++ m.behind))
  let time ← cstring (← e.m_t.toString m.time).val
  let msg ← cstring (e.m_msg.val ++ m.behind)
  copyText m.buf (ascii "[" ++ decimal e.m_pri ++ ascii "][" ++ tag ++ ascii "][" ++
    digits 10 e.m_threadID.toNat ++ ascii "][" ++ time ++ ascii "] " ++ msg)

/-- The entry's strings end in their arrays, and its line fits the one it is printed to. -/
def Logged (m : LogMemory) (c : LogCall) : Prop :=
  ∃ e, log_print m c = some e ∧ cstring e.m_tag.val ≠ none ∧ cstring e.m_msg.val ≠ none ∧
    ∃ line, format m e = some line

/-! ## What fits -/

section Lengths

theorem decimal_length_le {v : Int} {k : Nat} (hk : 0 < k) (h : v.natAbs < 10 ^ k) :
    (decimal v).length ≤ k + 1 := by
  have hdigits := (length_digits_le_iff (by decide) hk).mpr h
  rw [decimal]
  split
  · rw [List.length_cons]
    omega
  · omega

theorem nul_not_mem_decimal (v : Int) : 0 ∉ decimal v := by
  have hdigits := @nul_not_mem_digits 10 (by decide) (by decide) v.natAbs
  rw [decimal]
  split
  · rw [List.mem_cons, not_or]
    exact ⟨by decide, hdigits⟩
  · exact hdigits

theorem short_length (v : Short) : (decimal v.val).length ≤ 6 := by
  obtain ⟨v, h⟩ := v
  exact decimal_length_le (k := 5) (by decide) (by simp only; omega)

theorem nul_not_mem_timeText (t : Time) : 0 ∉ t.text := by
  simp only [Time.text, List.mem_append, not_or]
  exact ⟨⟨⟨⟨⟨⟨nul_not_mem_decimal _, by decide⟩, nul_not_mem_decimal _⟩, by decide⟩,
    nul_not_mem_decimal _⟩, by decide⟩, nul_not_mem_decimal _⟩

/-- Four numbers of six letters and the colons. -/
theorem timeText_length (t : Time) : t.text.length < 32 := by
  have hhour := short_length t.m_hour
  have hminute := short_length t.m_minute
  have hsecond := short_length t.m_second
  have hms := short_length t.m_ms
  have hcolon : (ascii ":").length = 1 := rfl
  simp only [Time.text, List.length_append, hcolon]
  omega

end Lengths

section Lines

variable (m : LogMemory) (c : LogCall)

/-- What is copied behind the tag. -/
theorem log_print_eq : log_print m c =
    some (Entry.new m.m_tag m.m_msg c.prio c.tag (c.text.take 945) c.tid c.time) := by
  rw [log_print, cstring_vsnprintf _ c.text_nul]
  rfl

theorem msg_terminated :
    cstring (strncpy m.m_msg (c.text.take 945) 946 (Nat.le_refl 946)).val =
      some (c.text.take 945) := by
  refine cstring_strncpy _ _ (fun h => c.text_nul (List.mem_of_mem_take h)) ?_
  exact Nat.lt_succ_of_le (List.length_take_le 945 c.text)

/-- A string that ends in its array is the same with anything behind the array. -/
theorem cstring_append_behind {a s : Bytes} (h : cstring a = some s) (behind : Bytes) :
    cstring (a ++ behind) = some s := by
  obtain ⟨h0, rest, rfl⟩ := cstring_eq_some h
  rw [List.append_assoc, List.cons_append]
  exact cstring_append_nul s _ h0

/-- With a tag that ends in its array the line is made of what was passed. -/
theorem format_eq (htag : c.tag.length < 40) :
    format m (Entry.new m.m_tag m.m_msg c.prio c.tag (c.text.take 945) c.tid c.time) =
      copyText m.buf (ascii "[" ++ decimal c.prio ++ ascii "][" ++ c.tag ++ ascii "][" ++
        digits 10 c.tid.toNat ++ ascii "][" ++ c.time.text ++ ascii "] " ++
        c.text.take 945) := by
  have htag' := cstring_strncpy m.m_tag (Nat.le_refl 40) c.tag_nul htag
  have hmsg := msg_terminated m c
  have htime : c.time.toString m.time = some (put m.time c.time.text (timeText_length c.time)) :=
    copyText_of_lt _ _
  rw [format]
  simp only [Entry.new]
  rw [cstring_append_behind htag', cstring_append_behind hmsg, htime]
  simp only [Option.bind_eq_bind, Option.bind_some, cstring_put _ _ (nul_not_mem_timeText c.time)]

theorem logged_iff : Logged m c ↔
    c.tag.length ≤ 39 ∧
      (decimal c.prio).length + c.tag.length + (digits 10 c.tid.toNat).length +
        c.time.text.length + min c.text.length 945 ≤ 1014 := by
  have hopen : (ascii "[").length = 1 := rfl
  have hbetween : (ascii "][").length = 2 := rfl
  have hclose : (ascii "] ").length = 2 := rfl
  have hline (htag : c.tag.length < 40) :
      (∃ line, format m (Entry.new m.m_tag m.m_msg c.prio c.tag (c.text.take 945) c.tid
        c.time) = some line) ↔
      (decimal c.prio).length + c.tag.length + (digits 10 c.tid.toNat).length +
        c.time.text.length + min c.text.length 945 ≤ 1014 := by
    rw [format_eq m c htag, copyText_eq_some_iff]
    simp only [List.length_append, List.length_take, hopen, hbetween, hclose]
    omega
  constructor
  · rintro ⟨e, he, htag, -, hfits⟩
    rw [log_print_eq, Option.some.injEq] at he
    subst he
    have hshort := (cstring_strncpy_full_iff m.m_tag c.tag_nul).mp htag
    exact ⟨Nat.le_of_lt_succ hshort, (hline hshort).mp hfits⟩
  · rintro ⟨hshort, hsum⟩
    refine ⟨_, log_print_eq m c, ?_, ?_, (hline (Nat.lt_succ_of_le hshort)).mpr hsum⟩
    · exact (cstring_strncpy_full_iff m.m_tag c.tag_nul).mpr (Nat.lt_succ_of_le hshort)
    · have hmsg := msg_terminated m c
      rw [Entry.new, hmsg]
      exact nofun

end Lines

/-- Memory that holds zeros. -/
def zeros : LogMemory where
  printed := ⟨List.replicate 946 0, List.length_replicate⟩
  m_tag := ⟨List.replicate 40 0, List.length_replicate⟩
  m_msg := ⟨List.replicate 946 0, List.length_replicate⟩
  behind := []
  time := ⟨List.replicate 32 0, List.length_replicate⟩
  buf := ⟨List.replicate 1024 0, List.length_replicate⟩

/-- A message of one letter under a tag as long as its array. -/
def longTag : LogCall where
  prio := 3
  tag := List.replicate 40 84
  text := ascii "x"
  tid := 1
  time := ⟨⟨0, by decide⟩, ⟨0, by decide⟩, ⟨0, by decide⟩, ⟨0, by decide⟩⟩
  tag_nul := by decide
  text_nul := by decide

theorem long_tag_not_terminated : ¬ Logged zeros longTag := by
  rintro ⟨e, he, htag, -⟩
  rw [log_print_eq, Option.some.injEq] at he
  subst he
  exact absurd ((cstring_strncpy_full_iff zeros.m_tag longTag.tag_nul).mp htag) (by decide)

end LogService

end Acu.Tools
