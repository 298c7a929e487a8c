import Acu.Tools.LogService
import Acu.Tools.Queue

/-!
# The thread that writes the log

Any threads print; each message is queued as an entry, and the thread of the service writes the
lines of the entries to the file and to the console, each from its own level on.
-/

namespace Acu.Tools

open Acu.Core Acu.Core.CMemory

/-- The members the constructor sets; `init` makes no service that writes nowhere. -/
structure LogConfig where
  m_bConsole : Bool
  m_bFile : Bool
  m_consoleLevel : Int
  m_fileLevel : Int
  writes : m_bConsole = true ∨ m_bFile = true

/-- `m_log_type`. -/
inductive LogType where
  | TYPE_NULL
  | TYPE_FILE
  | TYPE_CONSOLE
  | TYPE_FILE_CONSOLE
  deriving DecidableEq, Repr

def LogConfig.m_log_type (cfg : LogConfig) : LogType :=
  let type := if cfg.m_bFile then LogType.TYPE_FILE else .TYPE_NULL
  if cfg.m_bConsole then if type = .TYPE_FILE then .TYPE_FILE_CONSOLE else .TYPE_CONSOLE else type

/-- The service with what it has written. `got` is what `pop` returned to `run`, which has not
been written yet. -/
structure Logger where
  m_EntryQ : Queue Entry
  got : Option (Option Entry)
  ended : Bool
  file : Bytes
  console : Bytes

/-- A call of `__log_print` up to the end of `push`, the `exit` of the destructor, the critical
sections of the consumer, and what `run` does with an entry. -/
inductive LogLabel where
  | print (producer : Nat) (m : LogMemory) (c : LogCall)
  | exit
  | pop
  | wakeup
  | write (m : LogMemory)

namespace Logger

def start : Logger := ⟨.new, none, false, [], []⟩

def fileWrite (s : Logger) (buf : Bytes) : Logger := { s with file := s.file ++ buf }

def consoleWrite (s : Logger) (buf : Bytes) : Logger := { s with console := s.console ++ buf }

def fileConsoleWrite (s : Logger) (buf : Bytes) : Logger := (s.consoleWrite buf).fileWrite buf

/-- `writefunc[m_log_type](buf)`; the first entry of the table is null. -/
def writefunc (s : Logger) (buf : Bytes) : LogType → Option Logger
  | .TYPE_NULL => none
  | .TYPE_FILE => some (s.fileWrite buf)
  | .TYPE_CONSOLE => some (s.consoleWrite buf)
  | .TYPE_FILE_CONSOLE => some (s.fileConsoleWrite buf)

/-- The line of one entry, to where its priority takes it. -/
def writeEntry (cfg : LogConfig) (s : Logger) (e : Entry) (buf : Bytes) : Logger :=
  let s := if cfg.m_bFile && decide (cfg.m_fileLevel ≤ e.m_pri) then s.fileWrite buf else s
  if cfg.m_bConsole && decide (cfg.m_consoleLevel ≤ e.m_pri) then s.consoleWrite buf else s

def step (cfg : LogConfig) (s : Logger) : LogLabel → Option Logger
  | .print producer m c => do
      let e ← LogService.log_print m c
      let m_EntryQ ← s.m_EntryQ.step (.push producer e)
      some { s with m_EntryQ }
  | .exit => (s.m_EntryQ.step .exit).map fun m_EntryQ => { s with m_EntryQ }
  | .pop =>
      if s.ended then none
      else
        match s.got with
        | some _ => none
        | none =>
            (s.m_EntryQ.step .pop).map fun m_EntryQ =>
              { s with m_EntryQ, got := s.m_EntryQ.buf.head? }
  | .wakeup => (s.m_EntryQ.step .wakeup).map fun m_EntryQ => { s with m_EntryQ }
  | .write m =>
      match s.got with
      | none => none
      | some none =>
          { s with got := none, ended := true }.writefunc (ascii "logService Exit\n")
            cfg.m_log_type
      | some (some e) => do
          let line ← LogService.format m e
          let buf ← cstring line.val
          some ({ s with got := none }.writeEntry cfg e buf)

end Logger

def logger (cfg : LogConfig) : Machine Logger LogLabel := ⟨Logger.step cfg⟩

/-! ## What is to be written -/

/-- The line of a message, of which 945 bytes are kept. -/
def LogCall.line (c : LogCall) : Bytes :=
  ascii "[" ++ decimal c.prio ++ ascii "][" ++ c.tag ++ ascii "][" ++ digits 10 c.tid.toNat ++
    ascii "][" ++ c.time.text ++ ascii "] " ++ c.text.take 945

/-- The tag ends in its array, and the line fits the one it is printed to. -/
def LogCall.Fits (c : LogCall) : Prop :=
  c.tag.length ≤ 39 ∧
    (decimal c.prio).length + c.tag.length + (digits 10 c.tid.toNat).length +
      c.time.text.length + min c.text.length 945 ≤ 1014

/-- The lines of the messages from a level on, where they are written at all. -/
def linesFrom (written : Bool) (level : Int) (calls : List LogCall) : Bytes :=
  (calls.filter fun c => written && decide (level ≤ c.prio)).flatMap LogCall.line

/-- The last line, where there is anything to write to. -/
def lastLine (written ended : Bool) : Bytes :=
  if written && ended then ascii "logService Exit\n" else []

/-- What is printed before the first `exit`, in the order in which it is queued. -/
def LogLabel.beforeExit : List LogLabel → List (LogMemory × LogCall)
  | [] => []
  | .print _ m c :: as => (m, c) :: beforeExit as
  | .exit :: _ => []
  | _ :: as => beforeExit as

/-- The entry of a message. -/
def entryOf (p : LogMemory × LogCall) : Entry :=
  Entry.new p.1.m_tag p.1.m_msg p.2.prio p.2.tag (p.2.text.take 945) p.2.tid p.2.time

/-- `before` is written, `after` is still to be: the entry that was popped and those in the
buffer. -/
structure Progress (cfg : LogConfig) (before after : List (LogMemory × LogCall)) (s : Logger) :
    Prop where
  fits : ∀ p ∈ after, p.2.Fits
  file : s.file = linesFrom cfg.m_bFile cfg.m_fileLevel (before.map Prod.snd) ++
    lastLine cfg.m_bFile s.ended
  console : s.console = linesFrom cfg.m_bConsole cfg.m_consoleLevel (before.map Prod.snd) ++
    lastLine cfg.m_bConsole s.ended
  pending : s.ended = false → ∃ nulls,
    s.got.toList ++ s.m_EntryQ.buf = (after.map fun p => some (entryOf p)) ++
      List.replicate nulls none ∧ (nulls ≠ 0 ↔ s.m_EntryQ.m_available = false)
  finished : s.ended = true → after = [] ∧ s.got = none ∧ s.m_EntryQ.m_available = false
  waits : s.m_EntryQ.WaitsForSignal

/-! ## Lines of entries -/

section Entries

variable {p : LogMemory × LogCall}

/-- The line is printed from what the message was, whatever the memory holds by then. -/
theorem format_entryOf (h : p.2.Fits) (m : LogMemory) :
    ∃ line, LogService.format m (entryOf p) = some line ∧ cstring line.val = some p.2.line := by
  obtain ⟨mem, c⟩ := p
  obtain ⟨htag, hsum⟩ := h
  have hline : c.line.length < 1024 := by
    have hopen : (ascii "[").length = 1 := rfl
    have hbetween : (ascii "][").length = 2 := rfl
    have hclose : (ascii "] ").length = 2 := rfl
    simp only [LogCall.line, List.length_append, List.length_take, hopen, hbetween, hclose]
    dsimp only at hsum
    omega
  have hnul : 0 ∉ c.line := by
    simp only [LogCall.line, List.mem_append, not_or]
    exact ⟨⟨⟨⟨⟨⟨⟨⟨⟨by decide, LogService.nul_not_mem_decimal _⟩, by decide⟩, c.tag_nul⟩,
      by decide⟩, nul_not_mem_digits (by decide) (by decide) _⟩, by decide⟩,
      LogService.nul_not_mem_timeText c.time⟩, by decide⟩,
      fun h => c.text_nul (List.mem_of_mem_take h)⟩
  have htag' := cstring_strncpy mem.m_tag (Nat.le_refl 40) c.tag_nul (Nat.lt_succ_of_le htag)
  have hmsg := LogService.msg_terminated mem c
  have htime : c.time.toString m.time =
      some (put m.time c.time.text (LogService.timeText_length c.time)) := copyText_of_lt _ _
  refine ⟨put m.buf c.line hline, ?_, cstring_put _ _ hnul⟩
  rw [LogService.format]
  simp only [entryOf, Entry.new]
  rw [LogService.cstring_append_behind htag', LogService.cstring_append_behind hmsg, htime]
  simp only [Option.bind_eq_bind, Option.bind_some,
    cstring_put _ _ (LogService.nul_not_mem_timeText c.time)]
  exact copyText_of_lt _ _

theorem linesFrom_append (written : Bool) (level : Int) (as bs : List LogCall) :
    linesFrom written level (as ++ bs) =
      linesFrom written level as ++ linesFrom written level bs := by
  rw [linesFrom, List.filter_append, List.flatMap_append]
  rfl

theorem linesFrom_singleton (written : Bool) (level : Int) (c : LogCall) :
    linesFrom written level [c] = if written && decide (level ≤ c.prio) then c.line else [] := by
  cases h : written && decide (level ≤ c.prio) with
  | true => simp [linesFrom, h]
  | false => simp [linesFrom, h]

@[simp] theorem lastLine_false (written : Bool) : lastLine written false = [] := by
  rw [lastLine, Bool.and_false]
  rfl

end Entries

theorem writeEntry_eq (cfg : LogConfig) (s : Logger) (e : Entry) (buf : Bytes) :
    s.writeEntry cfg e buf = { s with
      file := s.file ++ if cfg.m_bFile && decide (cfg.m_fileLevel ≤ e.m_pri) then buf else []
      console := s.console ++
        if cfg.m_bConsole && decide (cfg.m_consoleLevel ≤ e.m_pri) then buf else [] } := by
  unfold Logger.writeEntry
  cases cfg.m_bFile && decide (cfg.m_fileLevel ≤ e.m_pri) <;>
    cases cfg.m_bConsole && decide (cfg.m_consoleLevel ≤ e.m_pri) <;>
    simp [Logger.fileWrite, Logger.consoleWrite]

/-! ## One step -/

namespace Progress

variable {cfg : LogConfig} {before after : List (LogMemory × LogCall)} {s t : Logger}

theorem start (cfg : LogConfig) : Progress cfg [] [] .start where
  fits _ h := nomatch h
  file := (lastLine_false _).symm
  console := (lastLine_false _).symm
  pending _ := ⟨0, rfl, fun h => absurd rfl h, fun h => nomatch h⟩
  finished h := nomatch h
  waits := Queue.new_waitsForSignal

/-- Steps of the queue that leave the buffer. -/
theorem keep (h : Progress cfg before after s) {q : Queue Entry}
    (hbuf : q.buf = s.m_EntryQ.buf) (havail : q.m_available = s.m_EntryQ.m_available)
    (hwaits : q.WaitsForSignal) : Progress cfg before after { s with m_EntryQ := q } where
  fits := h.fits
  file := h.file
  console := h.console
  pending hended := by
    dsimp only
    rw [hbuf, havail]
    exact h.pending hended
  finished hended := by
    dsimp only
    rw [havail]
    exact h.finished hended
  waits := hwaits

theorem print (h : Progress cfg before after s) {producer : Nat} {m : LogMemory} {c : LogCall}
    (hfits : s.m_EntryQ.m_available = true → c.Fits)
    (hs : (logger cfg).step s (.print producer m c) = some t) :
    Progress cfg before (after ++ if s.m_EntryQ.m_available then [(m, c)] else []) t ∧
      t.m_EntryQ.m_available = s.m_EntryQ.m_available := by
  have hstep : (logger cfg).step s (.print producer m c) =
      some { s with m_EntryQ := s.m_EntryQ.push (entryOf (m, c)) } := by
    simp only [logger, Logger.step, LogService.log_print_eq]
    rfl
  obtain rfl := Option.some.inj (hstep.symm.trans hs)
  have hwaits := Queue.waitsForSignal_step (a := .push producer (entryOf (m, c))) h.waits rfl
  cases havail : s.m_EntryQ.m_available with
  | false =>
      have hpush : (s.m_EntryQ.push (entryOf (m, c))).buf = s.m_EntryQ.buf ∧
          (s.m_EntryQ.push (entryOf (m, c))).m_available = s.m_EntryQ.m_available := by
        simp [Queue.push, havail]
      rw [if_neg Bool.false_ne_true, List.append_nil]
      exact ⟨h.keep hpush.1 hpush.2 hwaits, hpush.2.trans havail⟩
  | true =>
      have hbuf : (s.m_EntryQ.push (entryOf (m, c))).buf =
          s.m_EntryQ.buf ++ [some (entryOf (m, c))] := by
        simp [Queue.push, havail]
      have hopen : (s.m_EntryQ.push (entryOf (m, c))).m_available = true := by
        simp [Queue.push, havail]
      rw [if_pos rfl]
      refine ⟨⟨fun p hp => ?_, h.file, h.console, fun hended => ?_, fun hended => ?_, hwaits⟩,
        hopen⟩
      · rcases List.mem_append.mp hp with hp | hp
        · exact h.fits p hp
        · rw [List.mem_singleton.mp hp]
          exact hfits havail
      · obtain ⟨nulls, hpending, hnulls⟩ := h.pending hended
        obtain rfl : nulls = 0 := by
          by_contra hne
          rw [hnulls.mp hne] at havail
          cases havail
        refine ⟨0, ?_, fun h => absurd rfl h,
          fun h => absurd (hopen.symm.trans h) Bool.false_ne_true.symm⟩
        dsimp only
        rw [hbuf, ← List.append_assoc, hpending]
        simp
      · rw [(h.finished hended).2.2] at havail
        cases havail

theorem exit (h : Progress cfg before after s) (hs : (logger cfg).step s .exit = some t) :
    Progress cfg before after t ∧ t.m_EntryQ.m_available = false := by
  obtain rfl : { s with m_EntryQ := s.m_EntryQ.exit } = t := Option.some.inj hs
  have hwaits := Queue.waitsForSignal_step (a := .exit) h.waits rfl
  have hbuf : s.m_EntryQ.exit.buf = s.m_EntryQ.buf ++ [none] := by simp [Queue.exit]
  have hclosed : s.m_EntryQ.exit.m_available = false := by simp [Queue.exit]
  refine ⟨⟨h.fits, h.file, h.console, fun hended => ?_, fun hended => ?_, hwaits⟩, hclosed⟩
  · obtain ⟨nulls, hpending, -⟩ := h.pending hended
    refine ⟨nulls + 1, ?_, fun _ => hclosed, fun _ => Nat.succ_ne_zero nulls⟩
    dsimp only
    rw [hbuf, ← List.append_assoc, hpending, List.replicate_succ', List.append_assoc]
  · exact ⟨(h.finished hended).1, (h.finished hended).2.1, hclosed⟩

theorem pop (h : Progress cfg before after s) (hs : (logger cfg).step s .pop = some t) :
    Progress cfg before after t ∧ t.m_EntryQ.m_available = s.m_EntryQ.m_available := by
  simp only [logger, Logger.step] at hs
  split at hs
  · cases hs
  next hrunning =>
    split at hs
    · cases hs
    next hgot =>
      obtain ⟨q, hq, rfl⟩ := Option.map_eq_some_iff.mp hs
      have hwaits := Queue.waitsForSignal_step h.waits hq
      simp only [Queue.step] at hq
      split at hq
      · cases hq
      · obtain rfl := Option.some.inj hq
        have havail : s.m_EntryQ.pop.m_available = s.m_EntryQ.m_available := by
          unfold Queue.pop
          split <;> rfl
        have hbuf : s.m_EntryQ.buf.head?.toList ++ s.m_EntryQ.pop.buf = s.m_EntryQ.buf := by
          unfold Queue.pop
          split
          next hempty => simp [hempty]
          next m buf hcons => simp [hcons]
        refine ⟨⟨h.fits, h.file, h.console, fun hended => ?_, fun hended => ?_, hwaits⟩, havail⟩
        · have hpending := h.pending hended
          rw [hgot] at hpending
          dsimp only
          rw [hbuf, havail]
          exact hpending
        · exact absurd hended hrunning

theorem wakeup (h : Progress cfg before after s) (hs : (logger cfg).step s .wakeup = some t) :
    Progress cfg before after t ∧ t.m_EntryQ.m_available = s.m_EntryQ.m_available := by
  obtain ⟨q, hq, rfl⟩ := Option.map_eq_some_iff.mp hs
  have hwaits := Queue.waitsForSignal_step h.waits hq
  simp only [Queue.step] at hq
  split at hq
  · obtain rfl := Option.some.inj hq
    exact ⟨h.keep rfl rfl hwaits, rfl⟩
  · cases hq

/-- What `run` does with what it got: the next line, or the last one. -/
theorem write_cases (h : Progress cfg before after s) (m : LogMemory) (hgot : s.got ≠ none) :
    ∃ t, (logger cfg).step s (.write m) = some t ∧
      t.m_EntryQ.m_available = s.m_EntryQ.m_available ∧
      ((∃ p rest, after = p :: rest ∧ Progress cfg (before ++ [p]) rest t) ∨
        after = [] ∧ Progress cfg before [] t ∧ t.ended = true) := by
  have hrunning : s.ended = false := by
    by_contra hended
    exact hgot (h.finished (by simpa using hended)).2.1
  obtain ⟨o, ho⟩ := Option.ne_none_iff_exists'.mp hgot
  obtain ⟨nulls, hpending, hnulls⟩ := h.pending hrunning
  have hfile := h.file
  have hconsole := h.console
  rw [hrunning, lastLine_false, List.append_nil] at hfile hconsole
  rw [ho] at hpending
  cases after with
  | nil =>
      have hone : nulls ≠ 0 := by
        rintro rfl
        cases hpending
      obtain ⟨k, rfl⟩ := Nat.exists_eq_succ_of_ne_zero hone
      obtain ⟨rfl, -⟩ := List.cons_eq_cons.mp (hpending : o :: s.m_EntryQ.buf = _)
      refine ⟨{ s with
        got := none
        ended := true
        file := s.file ++ lastLine cfg.m_bFile true
        console := s.console ++ lastLine cfg.m_bConsole true }, ?_, rfl, .inr ⟨rfl, ?_, rfl⟩⟩
      · simp only [logger, Logger.step, ho, LogConfig.m_log_type]
        rcases hf : cfg.m_bFile with _ | _ <;> rcases hc : cfg.m_bConsole with _ | _ <;>
          simp [Logger.writefunc, Logger.fileWrite, Logger.consoleWrite,
            Logger.fileConsoleWrite, lastLine]
        have hwrites := cfg.writes
        simp [hf, hc] at hwrites
      · refine ⟨h.fits, ?_, ?_, fun h => (nomatch h), fun _ => ⟨rfl, rfl, hnulls.mp hone⟩, h.waits⟩
        · rw [hfile]
        · rw [hconsole]
  | cons p rest =>
      obtain ⟨rfl, hbuf⟩ := List.cons_eq_cons.mp (hpending : o :: s.m_EntryQ.buf = _)
      obtain ⟨line, hline, htext⟩ := format_entryOf (h.fits p List.mem_cons_self) m
      refine ⟨{ s with got := none }.writeEntry cfg (entryOf p) p.2.line, ?_, ?_, .inl
        ⟨p, rest, rfl, ?_⟩⟩
      · simp only [logger, Logger.step, ho, hline, htext, Option.bind_eq_bind, Option.bind_some]
      · rw [writeEntry_eq]
      · have hlines (written : Bool) (level : Int) :
            linesFrom written level ((before ++ [p]).map Prod.snd) =
              linesFrom written level (before.map Prod.snd) ++
                if written && decide (level ≤ p.2.prio) then p.2.line else [] := by
          rw [List.map_append, linesFrom_append]
          exact congrArg _ (linesFrom_singleton written level p.2)
        rw [writeEntry_eq]
        refine ⟨fun q hq => h.fits q (List.mem_cons_of_mem _ hq), ?_, ?_, fun _ => ?_,
          fun hended => ?_, h.waits⟩
        · dsimp only
          rw [hrunning, lastLine_false, List.append_nil, hlines, hfile]
          rfl
        · dsimp only
          rw [hrunning, lastLine_false, List.append_nil, hlines, hconsole]
          rfl
        · exact ⟨nulls, hbuf, hnulls⟩
        · exact absurd (hrunning.symm.trans hended) Bool.false_ne_true

end Progress

/-! ## Runs -/

/-- What is queued before the first `exit` is written or is still to be. -/
theorem Progress.run {cfg : LogConfig} {s t : Logger} {before after : List (LogMemory × LogCall)}
    {labels : List LogLabel} (h : Progress cfg before after s)
    (hfits : s.m_EntryQ.m_available = true → ∀ p ∈ LogLabel.beforeExit labels, p.2.Fits)
    (hrun : (logger cfg).run s labels = some t) :
    ∃ before' after', before' ++ after' = before ++ after ++
        (if s.m_EntryQ.m_available then LogLabel.beforeExit labels else []) ∧
      Progress cfg before' after' t := by
  induction labels generalizing s before after with
  | nil =>
      obtain rfl := Option.some.inj hrun
      exact ⟨before, after, by simp [LogLabel.beforeExit], h⟩
  | cons label labels ih =>
      obtain ⟨u, hs, hrest⟩ := (logger cfg).run_cons_eq_some hrun
      cases label with
      | print producer m c =>
          obtain ⟨hu, havail⟩ :=
            h.print (fun hopen => hfits hopen (m, c) List.mem_cons_self) hs
          rw [← havail] at hfits ⊢
          obtain ⟨before', after', hall, ht⟩ :=
            ih hu (fun hopen p hp => hfits hopen p (List.mem_cons_of_mem _ hp)) hrest
          refine ⟨before', after', hall.trans ?_, ht⟩
          rw [← havail]
          cases u.m_EntryQ.m_available <;> simp [LogLabel.beforeExit]
      | exit =>
          obtain ⟨hu, hclosed⟩ := h.exit hs
          obtain ⟨before', after', hall, ht⟩ :=
            ih hu (fun hopen => absurd (hclosed.symm.trans hopen) Bool.false_ne_true) hrest
          rw [hclosed] at hall
          refine ⟨before', after', hall.trans ?_, ht⟩
          simp [LogLabel.beforeExit]
      | pop =>
          obtain ⟨hu, havail⟩ := h.pop hs
          rw [← havail] at hfits ⊢
          exact ih hu hfits hrest
      | wakeup =>
          obtain ⟨hu, havail⟩ := h.wakeup hs
          rw [← havail] at hfits ⊢
          exact ih hu hfits hrest
      | write m =>
          have hgot : s.got ≠ none := by
            intro hnone
            simp only [logger, Logger.step, hnone] at hs
            cases hs
          obtain ⟨u', hs', havail, hu⟩ := h.write_cases m hgot
          obtain rfl : u = u' := Option.some.inj (hs.symm.trans hs')
          rw [← havail] at hfits ⊢
          obtain ⟨p, rest, rfl, hu⟩ | ⟨rfl, hu, -⟩ := hu
          · obtain ⟨before', after', hall, ht⟩ := ih hu hfits hrest
            refine ⟨before', after', hall.trans ?_, ht⟩
            rw [List.append_assoc before, List.singleton_append]
            rfl
          · exact ih hu hfits hrest

/-- The queue takes a step of its own, or none. -/
theorem step_queue {cfg : LogConfig} {s t : Logger} {a : LogLabel}
    (hs : (logger cfg).step s a = some t) :
    t.m_EntryQ = s.m_EntryQ ∨ ∃ b, s.m_EntryQ.step b = some t.m_EntryQ := by
  cases a with
  | print producer m c =>
      simp only [logger, Logger.step, LogService.log_print_eq] at hs
      obtain rfl := Option.some.inj hs
      exact .inr ⟨.push producer _, rfl⟩
  | exit =>
      obtain rfl := Option.some.inj hs
      exact .inr ⟨.exit, rfl⟩
  | pop =>
      simp only [logger, Logger.step] at hs
      split at hs
      · cases hs
      · split at hs
        · cases hs
        · obtain ⟨q, hq, rfl⟩ := Option.map_eq_some_iff.mp hs
          exact .inr ⟨.pop, hq⟩
  | wakeup =>
      obtain ⟨q, hq, rfl⟩ := Option.map_eq_some_iff.mp hs
      exact .inr ⟨.wakeup, hq⟩
  | write m =>
      refine .inl ?_
      simp only [logger, Logger.step] at hs
      split at hs
      · cases hs
      · rcases htype : cfg.m_log_type <;> rw [htype] at hs <;> simp only [Logger.writefunc] at hs
        · cases hs
        all_goals
          obtain rfl := Option.some.inj hs
          rfl
      · obtain ⟨line, -, hs⟩ := Option.bind_eq_some_iff.mp hs
        obtain ⟨buf, -, hs⟩ := Option.bind_eq_some_iff.mp hs
        obtain rfl := Option.some.inj hs
        rw [writeEntry_eq]

/-- After `exit` no message gets into the queue. -/
theorem closed_of_exit {cfg : LogConfig} {s t : Logger} {labels : List LogLabel}
    (hrun : (logger cfg).run s labels = some t)
    (hexit : s.m_EntryQ.m_available = false ∨ .exit ∈ labels) :
    t.m_EntryQ.m_available = false := by
  induction labels generalizing s with
  | nil =>
      obtain rfl := Option.some.inj hrun
      exact hexit.resolve_right List.not_mem_nil
  | cons a labels ih =>
      obtain ⟨u, hs, hrest⟩ := (logger cfg).run_cons_eq_some hrun
      apply ih hrest
      rcases hexit with hclosed | hmem
      · left
        rcases step_queue hs with hkept | ⟨b, hb⟩
        · rw [hkept, hclosed]
        · rw [(Queue.step_spec hb).2.2.2.1, hclosed, Bool.false_and]
      · rcases List.mem_cons.mp hmem with rfl | hmem
        · left
          obtain rfl := Option.some.inj hs
          simp [Queue.exit]
        · exact .inr hmem

variable {cfg : LogConfig} {s : Logger} {before after : List (LogMemory × LogCall)}

/-- Once nothing more gets into the queue, neither a wait nor a line is in the way of the thread:
at its next turn or the one after it writes. -/
theorem Progress.turn (h : Progress cfg before after s)
    (hclosed : s.m_EntryQ.m_available = false) (hrunning : s.ended = false) (m : LogMemory) :
    ∃ turns t, (∀ a ∈ turns, a = .pop ∨ a = .write m) ∧ (logger cfg).run s turns = some t ∧
      t.m_EntryQ.m_available = false ∧
      ((∃ p rest, after = p :: rest ∧ Progress cfg (before ++ [p]) rest t) ∨
        after = [] ∧ Progress cfg before [] t ∧ t.ended = true) := by
  cases hgot : s.got with
  | some o =>
      obtain ⟨t, hs, havail, ht⟩ := h.write_cases m (by rw [hgot]; exact Option.some_ne_none o)
      refine ⟨[.write m], t, ?_, ?_, havail.trans hclosed, ht⟩
      · simp
      · rw [Machine.run_cons, hs]
        rfl
  | none =>
      obtain ⟨nulls, hpending, hnulls⟩ := h.pending hrunning
      rw [hgot] at hpending
      have hbuf : s.m_EntryQ.buf ≠ [] := by
        intro hempty
        have hlength := congrArg List.length hpending
        simp only [hempty, Option.toList_none, List.append_nil, List.length_nil,
          List.length_append, List.length_map, List.length_replicate] at hlength
        exact hnulls.mpr hclosed (by omega)
      obtain ⟨o, buf, hcons⟩ := List.exists_cons_of_ne_nil hbuf
      have hpc : s.m_EntryQ.pc ≠ .waiting := fun hwaiting => hbuf (h.waits hwaiting).2
      obtain ⟨u, hu, hugot⟩ : ∃ u, (logger cfg).step s .pop = some u ∧ u.got = some o := by
        simp only [logger, Logger.step, hrunning, hgot, Queue.step, if_neg hpc, hcons]
        exact ⟨_, rfl, rfl⟩
      obtain ⟨hprogress, havail⟩ := h.pop hu
      obtain ⟨t, hs, havail', ht⟩ :=
        hprogress.write_cases m (by rw [hugot]; exact Option.some_ne_none o)
      refine ⟨[.pop, .write m], t, ?_, ?_, (havail'.trans havail).trans hclosed, ht⟩
      · simp
      · rw [Machine.run_cons, hu, Option.bind_some, Machine.run_cons, hs]
        rfl

theorem Progress.drain (h : Progress cfg before after s)
    (hclosed : s.m_EntryQ.m_available = false) (m : LogMemory) :
    ∃ turns t, (∀ a ∈ turns, a = .pop ∨ a = .write m) ∧ (logger cfg).run s turns = some t ∧
      t.ended = true ∧ Progress cfg (before ++ after) [] t := by
  induction after generalizing before s with
  | nil =>
      rw [List.append_nil]
      cases hended : s.ended with
      | true => exact ⟨[], s, fun a ha => absurd ha List.not_mem_nil, rfl, hended, h⟩
      | false =>
          obtain ⟨turns, t, hturns, hrun, -, ht⟩ := h.turn hclosed hended m
          obtain ⟨p, rest, hnil, -⟩ | ⟨-, ht, hend⟩ := ht
          · cases hnil
          · exact ⟨turns, t, hturns, hrun, hend, ht⟩
  | cons p rest ih =>
      have hrunning : s.ended = false := by
        by_contra hended
        cases (h.finished (by simpa using hended)).1
      obtain ⟨turns, u, hturns, hrun, hu, hnext⟩ := h.turn hclosed hrunning m
      obtain ⟨p', rest', hcons, hnext⟩ | ⟨hnil, -⟩ := hnext
      · obtain ⟨rfl, rfl⟩ := List.cons_eq_cons.mp hcons
        obtain ⟨turns', t, hturns', hrun', hend, ht⟩ := ih hnext hu
        refine ⟨turns ++ turns', t, fun a ha => ?_, ?_, hend, ?_⟩
        · exact (List.mem_append.mp ha).elim (hturns a) (hturns' a)
        · rw [Machine.run_append, hrun, Option.bind_some, hrun']
        · rw [List.append_assoc, List.singleton_append] at ht
          exact ht
      · cases hnil

/-- A console from warnings on beside a file of everything. -/
def bothWays : LogConfig := ⟨true, true, 2, 0, .inl rfl⟩

theorem short_zero : -32768 ≤ (0 : Int) ∧ (0 : Int) ≤ 32767 := by decide

def opened : LogCall where
  prio := 1
  tag := ascii "Door"
  text := ascii "open"
  tid := 7
  time := ⟨⟨8, by decide⟩, ⟨5, by decide⟩, ⟨0, short_zero⟩, ⟨0, short_zero⟩⟩
  tag_nul := by decide
  text_nul := by decide

/-- A message to the thread that waits, and the end. -/
def openedExit : List LogLabel := [.pop, .print 0 LogService.zeros opened, .exit]

theorem opened_fits (later : List LogLabel) :
    ∀ p ∈ LogLabel.beforeExit (openedExit ++ later), p.2.Fits := by
  intro p hp
  rw [List.mem_singleton.mp hp]
  exact ⟨by decide, by decide⟩

end Acu.Tools
