import Acu.Core.CopyText
import Acu.Core.Lines
import Acu.Core.Machine
import Acu.Core.Search
import Acu.Tools.LogService

/-!
# Commands from the FIFO

`FifoService` reads `/tmp/cmd` byte by byte into lines, of which an array of a hundred bytes
keeps the first ninety-nine, and answers each line on `/tmp/response`. The service holds a
descriptor of its own for writing to `/tmp/cmd`, so that the end of the file is not read there.
-/

namespace Acu.Delegator

open Acu.Core CMemory

/-! ## The code -/

/-- What a `read` of one byte returns. -/
inductive ReadResult where
  | interrupted
  | failed
  | eof
  | byte (ch : UInt8)
  deriving DecidableEq, Repr

inductive FifoCall where
  | open
  | write (text : Bytes)
  | onData (serialNumber : Bytes)
  | mtrace
  | muntrace
  | close
  deriving DecidableEq, Repr

/-- The service within `readLine`: the array of `run`, how much of it is read, and the calls
that were made. -/
structure FifoService where
  buf : CharArray 100
  totRead : Nat
  m_bRunningMtrace : Bool
  calls : List FifoCall

namespace FifoService

def call (s : FifoService) (c : FifoCall) : FifoService := { s with calls := s.calls ++ [c] }

/-- The tests of `run`; `heapSize` is the heap at that time. -/
def command (s : FifoService) (n : Nat) (heapSize : Int32) : Option FifoService :=
  if (ascii "memory").isPrefixOf s.buf.val then do
    let buf ← copyText s.buf (decimal heapSize.toInt ++ ascii "\n")
    let text ← cstring buf.val
    some ({ s with buf }.call (.write (text ++ [0])))
  else if (ascii "mtrace").isPrefixOf s.buf.val then
    if s.m_bRunningMtrace then
      let s := (s.call (.write (ascii "***** stop mtrace *****\n"))).call .muntrace
      some { s with m_bRunningMtrace := false }
    else
      let s := (s.call (.write (ascii "***** start mtrace *****\n"))).call .mtrace
      some { s with m_bRunningMtrace := true }
  else if (ascii "sn").isPrefixOf s.buf.val then do
    let buf ← putByte s.buf (n - 1) 0
    let serialNumber ← cstring (buf.val.drop 3)
    some (({ s with buf }.call (.onData serialNumber)).call (.write (ascii "ok")))
  else some s

/-- A byte that `readLine` has read, where there is room for it before the NUL. -/
def append (s : FifoService) (ch : UInt8) : Option FifoService :=
  if s.totRead < 99 then
    (putByte s.buf s.totRead ch).map fun buf => { s with buf, totRead := s.totRead + 1 }
  else some s

/-- The end of `readLine`, what `run` does with the line, and the next call. -/
def finish (s : FifoService) (heapSize : Int32) : Option FifoService := do
  let buf ← putByte s.buf s.totRead 0
  let n := s.totRead
  let s := { s with buf, totRead := 0 }
  if 0 < n then
    let s ← (s.call .open).command n heapSize
    some (s.call .close)
  else some s

/-- One `read`, up to the next one. -/
def step (s : FifoService) (read : ReadResult × Int32) : Option FifoService :=
  match read.1 with
  | .interrupted => some s
  | .failed => some { s with totRead := 0 }
  | .eof => if s.totRead = 0 then some s else s.finish read.2
  | .byte ch => do
      let s ← s.append ch
      if ch = 10 then s.finish read.2 else some s

def start (buf : CharArray 100) : FifoService := ⟨buf, 0, false, []⟩

end FifoService

def fifo : Machine FifoService (ReadResult × Int32) := ⟨FifoService.step⟩

/-! ## Lines and their answers -/

/-- The lines of what is read, each with the heap at its end. What an error breaks off is lost. -/
def commandLines (line : Bytes) : List (ReadResult × Int32) → List (Bytes × Int32)
  | [] => []
  | (.byte ch, heapSize) :: reads =>
      if ch = 10 then (line ++ [10], heapSize) :: commandLines [] reads
      else commandLines (line ++ [ch]) reads
  | (.failed, _) :: reads => commandLines [] reads
  | (_, _) :: reads => commandLines line reads

theorem commandLines_byte (line : Bytes) (ch : UInt8) (heapSize : Int32)
    (reads : List (ReadResult × Int32)) :
    commandLines line ((.byte ch, heapSize) :: reads) =
      if ch = 10 then (line ++ [10], heapSize) :: commandLines [] reads
      else commandLines (line ++ [ch]) reads := rfl

/-- The argument of `sn`: what stands behind the blank, without the last letter that was kept. -/
def serialNumberOf (kept : Bytes) : Bytes := (kept.dropLast.drop 3).takeWhile (· ≠ 0)

/-- The calls for a line, and whether the trace is running afterwards. -/
def reply (running : Bool) (heapSize : Int32) (kept : Bytes) : List FifoCall × Bool :=
  if ascii "memory" <+: kept then
    ([.write (decimal heapSize.toInt ++ ascii "\n" ++ [0])], running)
  else if ascii "mtrace" <+: kept then
    if running then ([.write (ascii "***** stop mtrace *****\n"), .muntrace], false)
    else ([.write (ascii "***** start mtrace *****\n"), .mtrace], true)
  else if ascii "sn" <+: kept then
    ([.onData (serialNumberOf kept), .write (ascii "ok")], running)
  else ([], running)

def replies (running : Bool) : List (Bytes × Int32) → List FifoCall × Bool
  | [] => ([], running)
  | (line, heapSize) :: lines =>
      let first := reply running heapSize (line.take 99)
      let later := replies first.2 lines
      (.open :: (first.1 ++ .close :: later.1), later.2)

/-! ## One read -/

namespace FifoService

/-- What the array keeps of the line. -/
structure Keeps (line : Bytes) (s : FifoService) : Prop where
  totRead : s.totRead = (line.take 99).length
  buf : ∃ rest, s.buf.val = line.take 99 ++ rest

section Commands

variable {kept rest : Bytes} {s : FifoService}

/-- The comparison does not go on behind the NUL. -/
theorem isPrefixOf_nul {key : Bytes} (hkey : 0 ∉ key) (kept rest : Bytes) :
    key.isPrefixOf (kept ++ 0 :: rest) = true ↔ key <+: kept := by
  induction kept generalizing key with
  | nil =>
      cases key with
      | nil => simp
      | cons c key =>
          have hc : c ≠ 0 := fun h => hkey (h ▸ List.mem_cons_self)
          simp [hc]
  | cons a kept ih =>
      cases key with
      | nil => simp
      | cons c key =>
          have hkey' : 0 ∉ key := fun h => hkey (List.mem_cons_of_mem _ h)
          rw [List.cons_append, List.isPrefixOf_cons_cons, Bool.and_eq_true, ih hkey',
            List.cons_prefix_cons, beq_iff_eq]

theorem heapSize_fits (heapSize : Int32) :
    (decimal heapSize.toInt ++ ascii "\n").length < 100 ∧
      0 ∉ decimal heapSize.toInt ++ ascii "\n" := by
  have hrange : heapSize.toInt.natAbs < 10 ^ 10 := by
    have hlow := heapSize.le_toInt
    have hhigh := heapSize.toInt_lt
    omega
  have hlength := Tools.LogService.decimal_length_le (by decide) hrange
  refine ⟨?_, ?_⟩
  · have hfeed : (ascii "\n").length = 1 := rfl
    rw [List.length_append, hfeed]
    omega
  · rw [List.mem_append, not_or]
    exact ⟨Tools.LogService.nul_not_mem_decimal _, by decide⟩

/-- The NUL is written over the last letter, so that there is one behind the blank. -/
theorem putByte_dropLast {buf : CharArray 100} (hbuf : buf.val = kept ++ 0 :: rest)
    (hlength : kept.length ≤ 99) (h : 3 ≤ kept.length) :
    ∃ out, putByte buf (kept.length - 1) 0 = some out ∧
      cstring (out.val.drop 3) = some (serialNumberOf kept) := by
  have hne : kept ≠ [] := List.ne_nil_of_length_pos (by omega)
  have hlast : buf.val = kept.dropLast ++ kept.getLast hne :: 0 :: rest := by
    rw [hbuf, List.append_cons kept.dropLast, List.dropLast_append_getLast]
  have hshorter : kept.dropLast.length = kept.length - 1 := List.length_dropLast
  obtain ⟨out, hput, hval⟩ := putByte_behind hlast (by omega) 0
  rw [hshorter] at hput
  refine ⟨out, hput, ?_⟩
  rw [hval, List.tail_cons, List.drop_append]
  rcases Nat.lt_or_ge 3 kept.length with hlonger | hthree
  · rw [Nat.sub_eq_zero_of_le (by omega), List.drop_zero]
    exact cstring_takeWhile _ _
  · have hone : 3 - kept.dropLast.length = 1 := by omega
    rw [hone]
    exact cstring_takeWhile _ _

/-- A line in the array is answered; the argument of `sn` ends before the line does. -/
theorem command_eq (hbuf : s.buf.val = kept ++ 0 :: rest) (hlength : kept.length ≤ 99)
    (hsn : ascii "sn" <+: kept → 3 ≤ kept.length) (heapSize : Int32) :
    ∃ t, s.command kept.length heapSize = some t ∧ t.totRead = s.totRead ∧
      t.calls = s.calls ++ (reply s.m_bRunningMtrace heapSize kept).1 ∧
      t.m_bRunningMtrace = (reply s.m_bRunningMtrace heapSize kept).2 := by
  have hnul (key : Bytes) (hkey : 0 ∉ key) := isPrefixOf_nul hkey kept rest
  unfold command reply
  rw [hbuf]
  simp only [hnul (ascii "memory") (by decide), hnul (ascii "mtrace") (by decide),
    hnul (ascii "sn") (by decide)]
  by_cases hmemory : ascii "memory" <+: kept
  · obtain ⟨hfits, h0⟩ := heapSize_fits heapSize
    rw [if_pos hmemory, if_pos hmemory, copyText_of_lt _ hfits]
    simp only [Option.bind_eq_bind, Option.bind_some, cstring_put _ hfits h0]
    exact ⟨_, rfl, rfl, rfl, rfl⟩
  by_cases hmtrace : ascii "mtrace" <+: kept
  · rw [if_neg hmemory, if_neg hmemory, if_pos hmtrace, if_pos hmtrace]
    cases s.m_bRunningMtrace with
    | true => exact ⟨_, rfl, rfl, by simp [call], rfl⟩
    | false => exact ⟨_, rfl, rfl, by simp [call], rfl⟩
  rw [if_neg hmemory, if_neg hmemory, if_neg hmtrace, if_neg hmtrace]
  by_cases hcmd : ascii "sn" <+: kept
  · obtain ⟨buf, hput, hval⟩ := putByte_dropLast hbuf hlength (hsn hcmd)
    rw [if_pos hcmd, if_pos hcmd, hput]
    simp only [Option.bind_eq_bind, Option.bind_some, hval]
    exact ⟨_, rfl, rfl, by simp [call], rfl⟩
  · rw [if_neg hcmd, if_neg hcmd]
    exact ⟨s, rfl, rfl, (List.append_nil _).symm, rfl⟩

end Commands

section Steps

variable {line : Bytes} {s : FifoService}

/-- A command that starts with `sn` and ends in a line feed has a letter between them. -/
theorem three_le_of_sn (h : ascii "sn" <+: (line ++ [10]).take 99) :
    3 ≤ ((line ++ [10]).take 99).length := by
  have htwo := h.length_le
  by_contra hshort
  have hall : (line ++ [10]).take 99 = line ++ [10] := by
    rw [List.take_of_length_le]
    rw [List.length_take] at hshort
    omega
  rw [hall] at h hshort
  have htwo : (ascii "sn").length = 2 := rfl
  have hsn : [115] ++ [110] = line ++ [10] := h.eq_of_length_le (by omega)
  exact absurd (List.append_inj_right' hsn rfl) (by decide)

theorem Keeps.finish (h : Keeps (line ++ [10]) s) (heapSize : Int32) :
    ∃ t, s.finish heapSize = some t ∧ Keeps [] t ∧
      t.calls = s.calls ++
        .open :: ((reply s.m_bRunningMtrace heapSize ((line ++ [10]).take 99)).1 ++ [.close]) ∧
      t.m_bRunningMtrace = (reply s.m_bRunningMtrace heapSize ((line ++ [10]).take 99)).2 := by
  obtain ⟨htotRead, rest, hbuf⟩ := h
  have hlength : ((line ++ [10]).take 99).length ≤ 99 := List.length_take_le 99 _
  obtain ⟨buf, hput, hval⟩ := putByte_behind hbuf (Nat.lt_succ_of_le hlength) 0
  have hpos : 0 < ((line ++ [10]).take 99).length := by
    simp only [List.length_take, List.length_append, List.length_singleton]
    omega
  obtain ⟨t, ht, htot, hcalls, hrunning⟩ := @command_eq _ _
    ({ s with buf, totRead := 0 }.call .open) hval hlength three_le_of_sn heapSize
  refine ⟨t.call .close, ?_, ⟨htot, t.buf.val, rfl⟩, ?_, hrunning⟩
  · unfold FifoService.finish
    rw [htotRead, hput]
    simp only [Option.bind_eq_bind, Option.bind_some, if_pos hpos, ht]
  · simp [call, hcalls]

/-- A byte goes behind what the array keeps, or is left out. -/
theorem Keeps.append (h : Keeps line s) (ch : UInt8) :
    ∃ t, s.append ch = some t ∧ Keeps (line ++ [ch]) t ∧ t.calls = s.calls ∧
      t.m_bRunningMtrace = s.m_bRunningMtrace := by
  obtain ⟨htotRead, rest, hbuf⟩ := h
  unfold FifoService.append
  rw [htotRead]
  have hlength : (line.take 99).length = min 99 line.length := List.length_take
  by_cases hroom : (line.take 99).length < 99
  · have hall : line.take 99 = line := List.take_of_length_le (by omega)
    have hmore : (line ++ [ch]).take 99 = line ++ [ch] :=
      List.take_of_length_le (by rw [List.length_append, List.length_singleton]; omega)
    rw [hall] at hbuf hroom ⊢
    obtain ⟨buf, hput, hval⟩ := putByte_behind hbuf (Nat.lt_succ_of_lt hroom) ch
    rw [if_pos hroom, hput]
    refine ⟨_, rfl, ⟨?_, rest.tail, ?_⟩, rfl, rfl⟩
    · rw [hmore, List.length_append, List.length_singleton]
    · rw [hmore, hval, List.append_assoc, List.singleton_append]
  · rw [if_neg hroom]
    have hsame : (line ++ [ch]).take 99 = line.take 99 := List.take_append_of_le_length (by omega)
    exact ⟨s, rfl, ⟨by rw [hsame, htotRead], rest, by rw [hsame, hbuf]⟩, rfl, rfl⟩

end Steps

end FifoService

/-! ## Runs -/

/-- Every line is answered in its turn, in whatever pieces it comes and however long it is. -/
theorem FifoService.Keeps.run {line : Bytes} {s : FifoService} (h : Keeps line s)
    {reads : List (ReadResult × Int32)} (hopen : ∀ read ∈ reads, read.1 ≠ .eof) :
    ∃ t, fifo.run s reads = some t ∧
      t.calls = s.calls ++ (replies s.m_bRunningMtrace (commandLines line reads)).1 ∧
      t.m_bRunningMtrace = (replies s.m_bRunningMtrace (commandLines line reads)).2 := by
  induction reads generalizing line s with
  | nil => exact ⟨s, rfl, (List.append_nil _).symm, rfl⟩
  | cons read reads ih =>
      obtain ⟨result, heapSize⟩ := read
      obtain ⟨hread, hreads⟩ := List.forall_mem_cons.mp hopen
      cases result with
      | interrupted => exact ih h hreads
      | failed => exact ih ⟨rfl, s.buf.val, rfl⟩ hreads
      | eof => exact absurd rfl hread
      | byte ch =>
          obtain ⟨u, hu, hkeeps, hcalls, hrunning⟩ := h.append ch
          by_cases hfeed : ch = 10
          · subst hfeed
            obtain ⟨v, hv, hempty, hcalls', hrunning'⟩ := hkeeps.finish heapSize
            obtain ⟨t, ht, htcalls, htrunning⟩ := ih hempty hreads
            have hlines : commandLines line ((.byte 10, heapSize) :: reads) =
                (line ++ [10], heapSize) :: commandLines [] reads := rfl
            rw [hrunning', hrunning, hcalls', hcalls] at htcalls
            rw [hrunning', hrunning] at htrunning
            refine ⟨t, ?_, ?_, ?_⟩
            · have hstep : fifo.step s (.byte 10, heapSize) = some v := by
                simp only [fifo, FifoService.step, hu, Option.bind_eq_bind, Option.bind_some]
                exact hv
              rw [Machine.run_cons, hstep, Option.bind_some, ht]
            · rw [htcalls, hlines, hrunning, replies]
              simp only [List.append_assoc, List.cons_append, List.nil_append]
            · rw [htrunning, hlines, replies]
          · obtain ⟨t, ht, htcalls, htrunning⟩ := ih hkeeps hreads
            have hlines : commandLines line ((.byte ch, heapSize) :: reads) =
                commandLines (line ++ [ch]) reads := by rw [commandLines_byte, if_neg hfeed]
            rw [hcalls, hrunning] at htcalls
            rw [hrunning] at htrunning
            refine ⟨t, ?_, hlines ▸ htcalls, hlines ▸ htrunning⟩
            have hstep : fifo.step s (.byte ch, heapSize) = some u := by
              simp only [fifo, FifoService.step, hu, Option.bind_eq_bind, Option.bind_some,
                if_neg hfeed]
            rw [Machine.run_cons, hstep, Option.bind_some, ht]

/-! ## What the lines ask for -/

def FifoCall.number : FifoCall → Option Bytes
  | .onData serialNumber => some serialNumber
  | _ => none

def FifoCall.Traces (c : FifoCall) : Bool := c = .mtrace || c = .muntrace

/-- The number of a line, of which ninety-nine letters are kept. -/
def numberOf (line : Bytes) : Option Bytes :=
  if ascii "sn" <+: line.take 99 then some (serialNumberOf (line.take 99)) else none

def mtraceLines (lines : List (Bytes × Int32)) : Nat :=
  lines.countP fun line => ascii "mtrace" <+: line.1.take 99

/-- The trace goes on and off in turn. -/
def inTurn (running : Bool) : Nat → List FifoCall
  | 0 => []
  | n + 1 => (if running then .muntrace else .mtrace) :: inTurn (!running) n

section Replies

variable (running : Bool) (heapSize : Int32) (line : Bytes)

/-- A line has one command. -/
theorem reply_numbers :
    (reply running heapSize (line.take 99)).1.filterMap FifoCall.number =
      (numberOf line).toList := by
  have hother {key : Bytes} (hkey : key <+: line.take 99) (hlength : 2 ≤ key.length)
      (hdiffers : ¬ ascii "sn" <+: key) : numberOf line = none :=
    if_neg fun hsn => hdiffers (List.prefix_of_prefix_length_le hsn hkey hlength)
  unfold reply
  by_cases hmemory : ascii "memory" <+: line.take 99
  · rw [if_pos hmemory, hother hmemory (by decide) (by decide)]
    rfl
  by_cases hmtrace : ascii "mtrace" <+: line.take 99
  · rw [if_neg hmemory, if_pos hmtrace, hother hmtrace (by decide) (by decide)]
    cases running <;> rfl
  rw [if_neg hmemory, if_neg hmtrace, numberOf]
  split <;> rfl

theorem reply_traces :
    (reply running heapSize (line.take 99)).1.filter FifoCall.Traces =
        inTurn running (if ascii "mtrace" <+: line.take 99 then 1 else 0) ∧
      (reply running heapSize (line.take 99)).2 =
        if ascii "mtrace" <+: line.take 99 then !running else running := by
  unfold reply
  by_cases hmtrace : ascii "mtrace" <+: line.take 99
  · have hmemory : ¬ ascii "memory" <+: line.take 99 := fun h =>
      absurd (List.prefix_of_prefix_length_le h hmtrace (by decide)) (by decide)
    rw [if_neg hmemory, if_pos hmtrace, if_pos hmtrace, if_pos hmtrace]
    cases running <;> exact ⟨rfl, rfl⟩
  · rw [if_neg hmtrace, if_neg hmtrace, if_neg hmtrace]
    split
    · exact ⟨rfl, rfl⟩
    · split <;> exact ⟨rfl, rfl⟩

theorem replies_numbers (lines : List (Bytes × Int32)) :
    (replies running lines).1.filterMap FifoCall.number =
      lines.filterMap fun line => numberOf line.1 := by
  induction lines generalizing running with
  | nil => rfl
  | cons line lines ih =>
      obtain ⟨line, heapSize⟩ := line
      have hline := reply_numbers running heapSize line
      rw [replies, List.filterMap_cons_none rfl, List.filterMap_append, hline,
        List.filterMap_cons_none rfl, ih]
      cases hnumber : numberOf line with
      | none => rw [List.filterMap_cons_none (by exact hnumber)]; rfl
      | some number => rw [List.filterMap_cons_some (by exact hnumber)]; rfl

theorem replies_traces (lines : List (Bytes × Int32)) :
    (replies running lines).1.filter FifoCall.Traces = inTurn running (mtraceLines lines) := by
  induction lines generalizing running with
  | nil => rfl
  | cons line lines ih =>
      obtain ⟨line, heapSize⟩ := line
      obtain ⟨hline, hrunning⟩ := reply_traces running heapSize line
      rw [replies, List.filter_cons_of_neg (by decide), List.filter_append,
        hline, List.filter_cons_of_neg (by decide), ih, hrunning, mtraceLines, mtraceLines,
        List.countP_cons]
      by_cases hmtrace : ascii "mtrace" <+: line.take 99
      · simp [hmtrace, inTurn]
      · simp [hmtrace, inTurn]

end Replies

/-! ## The service over a whole stream -/

/-- Whatever comes in, in whatever pieces, the array is never left and nothing is read of it that
was not read from the FIFO; the lines are answered one by one and in their order, `onData` is
called with the numbers of the `sn` lines and for nothing else, and the trace is switched on
and off in turn. -/
theorem commands_served (buf : CharArray 100) {reads : List (ReadResult × Int32)}
    (hopen : ∀ read ∈ reads, read.1 ≠ .eof) :
    ∃ t, fifo.run (.start buf) reads = some t ∧
      t.calls = (replies false (commandLines [] reads)).1 ∧
      t.calls.filterMap FifoCall.number =
        (commandLines [] reads).filterMap (fun line => numberOf line.1) ∧
      t.calls.filter FifoCall.Traces = inTurn false (mtraceLines (commandLines [] reads)) := by
  have hstart : (FifoService.start buf).Keeps [] := ⟨rfl, buf.val, rfl⟩
  obtain ⟨t, ht, hcalls, -⟩ := hstart.run hopen
  have hcalls : t.calls = (replies false (commandLines [] reads)).1 := hcalls
  refine ⟨t, ht, hcalls, ?_, ?_⟩
  · rw [hcalls, replies_numbers]
  · rw [hcalls, replies_traces]

/-- Of a line that an error breaks off nothing is left. -/
def brokenOff : List (ReadResult × Int32) :=
  (ascii "sn 1").map (fun ch => (.byte ch, 0)) ++
    (.failed, 0) :: (ascii "sn 25\n").map fun ch => (.byte ch, 0)

def blankBuf : CharArray 100 := ⟨List.replicate 100 0, List.length_replicate⟩

theorem broken_off : ∃ t, fifo.run (.start blankBuf) brokenOff = some t ∧
    t.calls = [.open, .onData (ascii "25"), .write (ascii "ok"), .close] := by
  have hopen : ∀ read ∈ brokenOff, read.1 ≠ .eof := by decide
  obtain ⟨t, ht, hcalls, -⟩ := commands_served blankBuf hopen
  exact ⟨t, ht, hcalls.trans (by decide)⟩

/-! ## The scripts -/

/-- What `memory.sh`, `mtrace.sh` and `sn.sh` send with `echo`. -/
inductive Command where
  | memory
  | mtrace
  | sn (number : Bytes)
  deriving DecidableEq, Repr

namespace Command

def text : Command → Bytes
  | .memory => ascii "memory"
  | .mtrace => ascii "mtrace"
  | .sn number => ascii "sn " ++ number

def number : Command → Option Bytes
  | .sn number => some number
  | _ => none

/-- A number of one line that is not cut off. -/
def Sent : Command → Prop
  | .sn number => number.length ≤ 95 ∧ 10 ∉ number ∧ 0 ∉ number
  | _ => True

instance : DecidablePred Sent
  | .sn _ => inferInstanceAs (Decidable (_ ∧ _ ∧ _))
  | .memory => inferInstanceAs (Decidable True)
  | .mtrace => inferInstanceAs (Decidable True)

end Command

def ReadResult.byteRead : ReadResult → Option UInt8
  | .byte ch => some ch
  | _ => none

section Scripts

/-- Without errors the lines are those of the text, whatever interrupts the reads. -/
theorem commandLines_text {reads : List (ReadResult × Int32)} (line : Bytes)
    (h : ∀ read ∈ reads, read.1 ≠ .failed) :
    (commandLines line reads).map Prod.fst =
      finishedLines line (reads.filterMap fun read => read.1.byteRead) := by
  induction reads generalizing line with
  | nil => rfl
  | cons read reads ih =>
      obtain ⟨result, heapSize⟩ := read
      obtain ⟨hread, hreads⟩ := List.forall_mem_cons.mp h
      cases result with
      | interrupted => exact ih line hreads
      | failed => exact absurd rfl hread
      | eof => exact ih line hreads
      | byte ch =>
          have hbyte : (((.byte ch, heapSize) : ReadResult × Int32) :: reads).filterMap
              (fun read => read.1.byteRead) =
                ch :: reads.filterMap fun read => read.1.byteRead := rfl
          rw [hbyte, finishedLines, commandLines_byte]
          split
          · rw [List.map_cons, ih [] hreads]
          · exact ih (line ++ [ch]) hreads

variable {c : Command}

theorem Command.feed_not_mem_text (h : c.Sent) : 10 ∉ c.text := by
  cases c with
  | memory => decide
  | mtrace => decide
  | sn number =>
      rw [Command.text, List.mem_append, not_or]
      exact ⟨by decide, h.2.1⟩

theorem Command.numberOf_text (h : c.Sent) : numberOf (c.text ++ [10]) = c.number := by
  cases c with
  | memory => decide
  | mtrace => decide
  | sn number =>
      obtain ⟨hlength, -, hnul⟩ := h
      have hthree : (ascii "sn ").length = 3 := rfl
      have hall : ((Command.sn number).text ++ [10]).take 99 =
          (Command.sn number).text ++ [10] := by
        rw [List.take_of_length_le]
        simp only [Command.text, List.length_append, hthree, List.length_singleton]
        omega
      have hsn : ascii "sn" <+: (Command.sn number).text ++ [10] :=
        ⟨ascii " " ++ number ++ [10], rfl⟩
      rw [numberOf, hall, if_pos hsn, serialNumberOf, List.dropLast_concat]
      exact congrArg some (takeWhile_of_nul_not_mem hnul)

theorem Command.mtrace_text (c : Command) :
    ascii "mtrace" <+: (c.text ++ [10]).take 99 ↔ c = .mtrace := by
  cases c with
  | memory => decide
  | mtrace => decide
  | sn number =>
      refine iff_of_false (fun h => ?_) Command.noConfusion
      obtain ⟨rest, hrest⟩ := h.trans (List.take_prefix 99 _)
      exact absurd (List.cons_eq_cons.mp hrest).1 (by decide)

end Scripts

/-- The second number is cut into two reads by a signal. -/
def twoNumbers : List (ReadResult × Int32) :=
  (ascii "sn 1\nmtrace\nsn 2").map (fun ch => (.byte ch, 0)) ++
    (.interrupted, 0) :: (ascii "5\n").map fun ch => (.byte ch, 0)

end Acu.Delegator
