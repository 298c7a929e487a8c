import Acu.Web.ReplyBody
import Mathlib.Algebra.Ring.Int.Defs

/-!
# The body loops under every sequence of results

The loops ask for what is missing until nothing is. They take each result of `recv` as
a number of bytes: the end of the connection as none, an error as minus one.
-/

namespace Acu.Web

open Acu.Core Acu.Core.CMemory

namespace Recv

/-- What a result brings. -/
def bytes : Recv → Bytes
  | .data bytes => bytes
  | .closed | .error => []

/-- The value of `recv`. -/
def count : Recv → Int
  | .data bytes => bytes.length
  | .closed => 0
  | .error => -1

end Recv

/-- The results of one `recv` after the other. -/
abbrev Results := Nat → Recv

namespace Results

variable (results : Results)

def next : Results := fun n => results (n + 1)

/-- The first `n` results. -/
def script (n : Nat) : List Recv := (List.range n).map results

/-- What `nleaved` is after `n` results. -/
def left (nleaved : Int) (n : Nat) : Int := nleaved - ((results.script n).map Recv.count).sum

/-- As long as something is asked for, data is never empty and never more than that. A negative
count asks for any amount. -/
def Delivers (nleaved : Int) : Prop :=
  ∀ n, (∀ m ≤ n, results.left nleaved m ≠ 0) → ∀ bytes, results n = .data bytes →
    bytes ≠ [] ∧ (0 ≤ results.left nleaved n → bytes.length ≤ results.left nleaved n)

/-- The connection ends, closed or with an error, before `missing` bytes have arrived. -/
def EndsShort (missing : Int) : Prop :=
  ∃ k, (∀ m < k, (results m).bytes ≠ []) ∧ (results k).bytes = [] ∧
    (((results.script k).flatMap Recv.bytes).length : Int) < missing

/-- Nothing but closed connections, and then an error. -/
def OnlyFails : Prop := ∃ k, results k = .error ∧ ∀ m < k, results m = .closed

variable {results}

theorem script_zero : results.script 0 = [] := rfl

theorem script_succ (n : Nat) : results.script (n + 1) = results 0 :: results.next.script n := by
  rw [script, List.range_succ_eq_map, List.map_cons, List.map_map]
  rfl

theorem left_zero (nleaved : Int) : results.left nleaved 0 = nleaved := Int.sub_zero nleaved

theorem left_succ (nleaved : Int) (n : Nat) :
    results.left nleaved (n + 1) = results.next.left (nleaved - (results 0).count) n := by
  rw [left, left, script_succ, List.map_cons, List.sum_cons]
  omega

namespace Delivers

variable {nleaved : Int}

theorem first (h : results.Delivers nleaved) (hleft : nleaved ≠ 0) {bytes : Bytes}
    (h0 : results 0 = .data bytes) :
    bytes ≠ [] ∧ (0 ≤ nleaved → bytes.length ≤ nleaved) := by
  have hzero : results.left nleaved 0 = nleaved := left_zero nleaved
  have hfirst := h 0 (fun m hm => by rwa [Nat.le_zero.mp hm, hzero]) bytes h0
  rwa [hzero] at hfirst

theorem next (h : results.Delivers nleaved) (hleft : nleaved ≠ 0) :
    results.next.Delivers (nleaved - (results 0).count) := by
  intro n hn bytes hbytes
  rw [← left_succ]
  refine h (n + 1) (fun m hm => ?_) bytes hbytes
  cases m with
  | zero => rwa [left_zero]
  | succ m =>
      rw [left_succ]
      exact hn m (Nat.le_of_succ_le_succ hm)

end Delivers

theorem EndsShort.of_next {missing : Int} {bytes : Bytes} (h0 : results 0 = .data bytes)
    (hne : bytes ≠ []) (h : results.next.EndsShort (missing - bytes.length)) :
    results.EndsShort missing := by
  rcases h with ⟨k, hbefore, hend, hlt⟩
  refine ⟨k + 1, fun m hm => ?_, hend, ?_⟩
  · cases m with
    | zero => rwa [h0]
    | succ m => exact hbefore m (Nat.lt_of_succ_lt_succ hm)
  · rw [script_succ, List.flatMap_cons, h0, List.length_append, Recv.bytes]
    omega

/-- A connection that does not end short delivers what is missing in pieces. -/
theorem pieces_of_not_short {n : Nat} (h : results.Delivers n) (hs : ¬ results.EndsShort n) :
    ∃ (k : Nat) (pieces : List Bytes), results.script k = pieces.map .data ∧
      (∀ p ∈ pieces, p ≠ []) ∧ pieces.flatten.length = n := by
  induction n using Nat.strongRecOn generalizing results with
  | ind n ih =>
      by_cases hn : n = 0
      · exact ⟨0, [], rfl, by simp, hn.symm⟩
      have hends (hempty : (results 0).bytes = []) : results.EndsShort n :=
        ⟨0, fun m hm => absurd hm (Nat.not_lt_zero m), hempty, by
          rw [script_zero, List.flatMap_nil, List.length_nil]
          omega⟩
      have hleft : (n : Int) ≠ 0 := by omega
      cases h0 : results 0 with
      | closed => exact absurd (hends (by rw [h0]; rfl)) hs
      | error => exact absurd (hends (by rw [h0]; rfl)) hs
      | data bytes =>
          obtain ⟨hne, hle⟩ := h.first hleft h0
          have hpos := List.length_pos_iff.mpr hne
          have hle := hle (by omega)
          have hrest : (n : Int) - (results 0).count = ((n - bytes.length : Nat) : Int) := by
            rw [h0, Recv.count]
            omega
          have hnext := h.next hleft
          rw [hrest] at hnext
          have hshort : ¬ results.next.EndsShort ((n - bytes.length : Nat) : Int) := by
            intro hshort
            refine hs (.of_next h0 hne ?_)
            have heq : (n : Int) - bytes.length = ((n - bytes.length : Nat) : Int) := by omega
            rwa [heq]
          obtain ⟨k, pieces, hscript, hpieces, hlen⟩ :=
            ih (n - bytes.length) (by omega) hnext hshort
          refine ⟨k + 1, bytes :: pieces, ?_, ?_, ?_⟩
          · rw [script_succ, h0, hscript, List.map_cons]
          · simpa using ⟨hne, hpieces⟩
          · rw [List.flatten_cons, List.length_append, hlen]
            omega

end Results

/-! ## The law and when it holds -/

/-- With some number of results the call returns without an access outside its blocks, and it
does not return true when the connection ended short. -/
def Lawful (returns : List Recv → Option Bool) (bytes : Bytes) (missing : Int)
    (results : Results) : Prop :=
  ∃ n r, returns (.data bytes :: results.script n) = some r ∧
    (results.EndsShort missing → r = false)

/-- Behind the header there is no more than the contents, and the rest of them arrives. -/
structure Completes (h : Header) (results : Results) : Prop where
  received : 0 ≤ h.readByteContent
  announced : h.readByteContent ≤ h.contentLength
  arrives : ¬ results.EndsShort (h.contentLength - h.readByteContent)

/-- Behind the header there is one byte too many, and an error makes up for it. -/
structure OneOver (h : Header) (results : Results) : Prop where
  announced : 0 ≤ h.contentLength
  oneMore : h.readByteContent = h.contentLength + 1
  fails : results.OnlyFails

/-! ## One byte too many -/

theorem Results.not_endsShort_of_neg {results : Results} {missing : Int} (h : missing ≤ 0) :
    ¬ results.EndsShort missing := by
  intro h
  rcases h with ⟨k, -, -, hlt⟩
  omega

theorem recvInto_over {buf bytes : Bytes} (h : bytes ≠ []) :
    recvInto buf buf.length (-1) (.data bytes) = none := by
  have hpos := List.length_pos_iff.mpr h
  have hasked : ¬ (0 ≤ (-1 : Int) ∧ (-1 : Int) < bytes.length) := by omega
  have hblit : blit buf buf.length bytes = none := if_neg (by omega)
  simp only [recvInto, if_neg hasked, index?_natCast, hblit, Option.bind_eq_bind,
    Option.bind_some, Option.bind_none]

/-- A full block is left by an error alone. -/
theorem collectLoop_over {results : Results} (hd : results.Delivers (-1)) {buf b : Bytes} {n : Nat}
    (h : collectLoop (results.script n) buf buf.length (-1) = some b) :
    b = buf ∧ results.OnlyFails := by
  have hleft : (-1 : Int) ≠ 0 := by decide
  induction n generalizing results with
  | zero => cases h
  | succ n ih =>
      rw [Results.script_succ, collectLoop, if_neg hleft] at h
      cases h0 : results 0 with
      | error =>
          rw [h0] at h
          have hdone : some buf = some b := (collectLoop_done _ _ _).symm.trans h
          cases hdone
          exact ⟨rfl, 0, h0, fun m hm => absurd hm (Nat.not_lt_zero m)⟩
      | closed =>
          have hnext := hd.next hleft
          rw [h0] at h hnext
          obtain ⟨hb, k, hk, hbefore⟩ := ih hnext (by simpa [recvInto] using h)
          refine ⟨hb, k + 1, hk, fun m hm => ?_⟩
          cases m with
          | zero => exact h0
          | succ m => exact hbefore m (Nat.lt_of_succ_lt_succ hm)
      | data bytes =>
          rw [h0, recvInto_over (hd.first hleft h0).1] at h
          cases h

theorem collectLoop_fails {results : Results} {k : Nat} (hk : results k = .error)
    (hbefore : ∀ m < k, results m = .closed) (buf : Bytes) :
    collectLoop (results.script (k + 1)) buf buf.length (-1) = some buf := by
  have hleft : (-1 : Int) ≠ 0 := by decide
  induction k generalizing results with
  | zero =>
      rw [Results.script_succ, collectLoop, if_neg hleft, hk]
      exact collectLoop_done _ _ _
  | succ k ih =>
      have hnext := @ih results.next hk fun m hm => hbefore (m + 1) (by omega)
      rw [Results.script_succ, collectLoop, if_neg hleft, hbefore 0 (by omega)]
      simpa [recvInto] using hnext

/-! ## The calls that collect -/

theorem index?_some {i : Int} {n : Nat} (h : index? i = some n) : i = n := by
  unfold index? at h
  split at h
  · cases h
    omega
  · cases h

section Collect

variable {stack : CharArray RCVHEADERBUFSIZE} {bytes : Bytes} {h : Header} (heap : Nat → UInt8)
  {results : Results}

/-- What comes with the header is copied to the start of the block. -/
theorem first_bounds {size count : Nat} {first buf : Bytes}
    (hsize : index? (h.contentLength + 1) = some size)
    (hcount : index? h.readByteContent = some count)
    (hload : load h.buf h.startContent count = some first)
    (hblit : blit ((List.range size).map heap) 0 first = some buf) :
    0 ≤ h.readByteContent ∧ h.readByteContent ≤ h.contentLength + 1 ∧
      (buf.length : Int) = h.contentLength + 1 := by
  have hsize := index?_some hsize
  have hcount := index?_some hcount
  have hfirst : first.length = count := by
    unfold load at hload
    split at hload
    · cases hload
      rw [List.length_take, List.length_drop]
      omega
    · cases hload
  unfold blit at hblit
  split at hblit
  next hle =>
    rw [List.length_map, List.length_range] at hle
    cases hblit
    have hlen : (((List.range size).map heap).take 0 ++ first ++
        ((List.range size).map heap).drop (0 + first.length)).length = size := by
      simp only [List.take_zero, List.nil_append, Nat.zero_add, List.length_append,
        List.length_drop, List.length_map, List.length_range]
      omega
    rw [hlen]
    omega
  · cases hblit

/-- The contents that come behind the header fit into the block, and fill it only when an error
is to follow. -/
theorem collectContents_bounds {n : Nat} {b : Bytes}
    (hd : results.Delivers (h.contentLength - h.readByteContent))
    (hb : collectContents heap h (results.script n) = some b) :
    0 ≤ h.readByteContent ∧ (h.readByteContent ≤ h.contentLength ∨
      (0 ≤ h.contentLength ∧ h.readByteContent = h.contentLength + 1 ∧ results.OnlyFails)) := by
  simp only [collectContents, Option.bind_eq_bind, Option.bind_eq_some_iff] at hb
  rcases hb with ⟨size, hsize, count, hcount, first, hload, buf, hblit, buf', hloop, hstore⟩
  obtain ⟨hread, hle, hblock⟩ := first_bounds heap hsize hcount hload hblit
  refine ⟨hread, ?_⟩
  by_cases hfull : h.readByteContent ≤ h.contentLength
  · exact .inl hfull
  -- the block is full, and one byte less is asked for than none
  have hover : h.readByteContent = h.contentLength + 1 := by omega
  have hleft : h.contentLength - h.readByteContent = -1 := by omega
  rw [hleft] at hd
  rw [hleft, hover, ← hblock] at hloop
  obtain ⟨rfl, hfails⟩ := collectLoop_over hd hloop
  refine .inr ⟨?_, hover, hfails⟩
  unfold store at hstore
  split at hstore
  · omega
  · cases hstore

variable (hparse : parsingHeader stack (.data bytes) = some (some h))

include hparse

theorem Completes.pieces (hc : Completes h results)
    (hd : results.Delivers (h.contentLength - h.readByteContent)) :
    ∃ (k : Nat) (pieces : List Bytes), results.script k = pieces.map .data ++ [] ∧
      (∀ p ∈ pieces, p ≠ []) ∧ h.contentLength =
        ((bytes.drop h.startContent).length + pieces.flatten.length : Nat) := by
  have hcount := (starts_of_parsed hparse hc.received).count
  have hannounced := hc.announced
  have hmissing : h.contentLength - h.readByteContent =
      ((h.contentLength - h.readByteContent).toNat : Nat) := by omega
  rw [hmissing] at hd
  have hshort := hc.arrives
  rw [hmissing] at hshort
  obtain ⟨k, pieces, hscript, hne, hlen⟩ := Results.pieces_of_not_short hd hshort
  exact ⟨k, pieces, by rw [List.append_nil, hscript], hne, by omega⟩

/-- A call that collects its contents keeps the law when they complete, or one byte too many came
and an error follows. -/
theorem collects_lawful_iff (hd : results.Delivers (h.contentLength - h.readByteContent)) :
    Lawful (fun rs => (afterHeader stack (collectContents heap) rs).map Option.isSome) bytes
        (h.contentLength - h.readByteContent) results ↔
      Completes h results ∨ OneOver h results := by
  have hcall (n : Nat) : (afterHeader stack (collectContents heap)
      (.data bytes :: results.script n)).map Option.isSome =
        (collectContents heap h (results.script n)).map fun _ => true := by
    rw [afterHeader_parsed hparse, Option.map_map]
    rfl
  constructor
  · intro h
    rcases h with ⟨n, r, hr, hshort⟩
    obtain ⟨b, hb, rfl⟩ := Option.map_eq_some_iff.mp ((hcall n).symm.trans hr)
    have hnot : ¬ results.EndsShort (h.contentLength - h.readByteContent) :=
      fun hs => nomatch hshort hs
    obtain ⟨hread, hle | ⟨hannounced, hover, hfails⟩⟩ := collectContents_bounds heap hd hb
    · exact .inl ⟨hread, hle, hnot⟩
    · exact .inr ⟨hannounced, hover, hfails⟩
  · rintro (hc | ho)
    · obtain ⟨k, pieces, hscript, hne, hlen⟩ := hc.pieces hparse hd
      have hs := starts_of_parsed hparse hc.received
      have hcollected := collectContents_pieces heap hs [] hne hlen
      rw [← hscript] at hcollected
      refine ⟨k, true, ?_, fun hshort => absurd hshort hc.arrives⟩
      refine (hcall k).trans ?_
      rw [hcollected, Option.map_some]
    · rcases ho with ⟨hannounced, hover, k, hk, hbefore⟩
      have hs := starts_of_parsed hparse (by omega)
      have hcount := hs.count
      obtain ⟨back, hblit, hback⟩ :=
        blit_first heap (Nat.le_refl (bytes.drop h.startContent).length)
      have hnil : back = [] := List.eq_nil_of_length_eq_zero (by omega)
      rw [hnil, List.append_nil] at hblit
      have hleft : h.contentLength - h.readByteContent = -1 := by omega
      have hloop := collectLoop_fails hk hbefore (bytes.drop h.startContent)
      have hlast : store (bytes.drop h.startContent) ((bytes.drop h.startContent).length - 1) 0 =
          some ((bytes.drop h.startContent).set ((bytes.drop h.startContent).length - 1) 0) :=
        if_pos (by omega)
      refine ⟨k + 1, true, ?_, fun hshort =>
        absurd hshort (Results.not_endsShort_of_neg (by omega))⟩
      refine (hcall (k + 1)).trans ?_
      rw [collectContents, ← hover, hleft, hcount]
      simp only [index?_natCast, Option.bind_eq_bind, Option.bind_some, hs.load_first, hblit, hloop,
        hlast, Option.map_some]

end Collect

/-! ## The call that writes a file -/

namespace RfidInfoSelectAll

section Write

variable {stack : CharArray RCVHEADERBUFSIZE} {bytes : Bytes} {h : Header} (m_filename : String)
  (heap : Nat → UInt8) (d : Disk String) {results : Results}

/-- Whatever comes first behind a full block, the loop leaves the block. -/
theorem bodyLoop_over (hd : results.Delivers (-1)) (buf body : Bytes) (n : Nat) :
    (bodyLoop m_filename (results.script n) buf buf.length (-1) body d).value = none := by
  have hleft : (-1 : Int) ≠ 0 := by decide
  cases n with
  | zero => rfl
  | succ n =>
      rw [Results.script_succ]
      unfold bodyLoop
      rw [if_neg hleft]
      cases h0 : results 0 with
      | data bytes =>
          rw [recvInto_over (hd.first hleft h0).1]
          rfl
      | closed =>
          have hstore : store buf buf.length 0 = none := if_neg (Nat.lt_irrefl buf.length)
          simp only [recvInto, FileProg.ofOption_some, FileProg.pure_bind, Int.add_zero,
            index?_natCast, hstore]
          rfl
      | error =>
          cases hstop : index? ((buf.length : Int) + -1) with
          | none =>
              simp only [recvInto, FileProg.ofOption_some, FileProg.pure_bind, hstop]
              rfl
          | some stop =>
              cases hstore : store buf stop 0 with
              | none =>
                  simp only [recvInto, FileProg.ofOption_some, FileProg.pure_bind, hstop, hstore]
                  rfl
              | some buf' =>
                  have hstring : stringAt buf' buf.length = none := by
                    rw [← store_length hstore, stringAt, List.drop_length]
                    rfl
                  simp only [recvInto, FileProg.ofOption_some, FileProg.pure_bind, hstop, hstore,
                    index?_natCast, hstring]
                  rfl

theorem contents_bounds {n : Nat} {body : Bytes}
    (hd : results.Delivers (h.contentLength - h.readByteContent))
    (hb : (contents m_filename h heap (results.script n) d).value = some body) :
    0 ≤ h.readByteContent ∧ h.readByteContent ≤ h.contentLength := by
  simp only [contents, FileProg.ofOption_bind_value] at hb
  rcases hb with ⟨size, hsize, count, hcount, first, hload, buf, hblit, hloop⟩
  obtain ⟨hread, hle, hblock⟩ := first_bounds heap hsize hcount hload hblit
  refine ⟨hread, ?_⟩
  by_contra hfull
  have hleft : h.contentLength - h.readByteContent = -1 := by omega
  have hlen : (buf.length : Int) = h.readByteContent := by omega
  rw [hleft] at hd
  rw [hleft, ← hlen, bodyLoop_over m_filename d hd] at hloop
  cases hloop

/-- A call that returns has read its contents, and returns true. -/
theorem parsing_bounds {n : Nat} {r : Bool}
    (hparse : parsingHeader stack (.data bytes) = some (some h))
    (hd : results.Delivers (h.contentLength - h.readByteContent))
    (hr : (parsing m_filename stack heap (.data bytes :: results.script n) d).value = some r) :
    0 ≤ h.readByteContent ∧ h.readByteContent ≤ h.contentLength ∧ r = true := by
  simp only [parsing, FileProg.emit_bind, FileProg.ofOption_bind_value, hparse, Option.some.injEq,
    exists_eq_left'] at hr
  rcases hr with ⟨stop, -, buf, -, piece, -, hr⟩
  cases hbody : (contents m_filename { h with buf } heap (results.script n)
      (FileEvent.apply (FileEvent.apply d (.create m_filename : FileEvent String Note))
        (.append m_filename piece : FileEvent String Note))).value with
  | none =>
      rw [FileProg.bind_of_none _ hbody] at hr
      cases hr
  | some body =>
      obtain ⟨hread, hle⟩ := contents_bounds (h := { h with buf }) m_filename heap _ hd hbody
      rw [FileProg.bind_of_some _ hbody] at hr
      cases hr
      exact ⟨hread, hle, rfl⟩

/-- The call that writes a file keeps the law precisely when its contents complete. -/
theorem writes_lawful_iff (hparse : parsingHeader stack (.data bytes) = some (some h))
    (hd : results.Delivers (h.contentLength - h.readByteContent)) :
    Lawful (fun rs => (parsing m_filename stack heap rs d).value) bytes
        (h.contentLength - h.readByteContent) results ↔ Completes h results := by
  constructor
  · intro h
    rcases h with ⟨n, r, hr, hshort⟩
    obtain ⟨hread, hle, rfl⟩ := parsing_bounds m_filename heap d hparse hd hr
    exact ⟨hread, hle, fun hs => nomatch hshort hs⟩
  · intro hc
    obtain ⟨k, pieces, hscript, hne, hlen⟩ := hc.pieces hparse hd
    have hs := starts_of_parsed hparse hc.received
    have hparsing := parsing_pieces hparse m_filename heap hs [] hne hlen d
    rw [← hscript] at hparsing
    exact ⟨k, true, congrArg Observed.value hparsing, fun hshort => absurd hshort hc.arrives⟩

end Write

end RfidInfoSelectAll

/-- The three calls that read the contents of a reply: when they return, stay in their blocks and
tell a connection that ended short. -/
theorem body_loops_lawful_iff (stack : CharArray RCVHEADERBUFSIZE) (heap : Nat → UInt8)
    (m_filename : String) (d : Disk String) {bytes : Bytes} {h : Header} {results : Results}
    (hparse : parsingHeader stack (.data bytes) = some (some h))
    (hd : results.Delivers (h.contentLength - h.readByteContent)) :
    (Lawful (fun rs => (CodeDataSelect.parsing stack heap rs).map Option.isSome) bytes
        (h.contentLength - h.readByteContent) results ↔
      Completes h results ∨ OneOver h results) ∧
    (Lawful (fun rs => (RfidInfoSelect.parsing stack heap rs).map Option.isSome) bytes
        (h.contentLength - h.readByteContent) results ↔
      Completes h results ∨ OneOver h results) ∧
    (Lawful (fun rs => (RfidInfoSelectAll.parsing m_filename stack heap rs d).value) bytes
        (h.contentLength - h.readByteContent) results ↔ Completes h results) :=
  ⟨collects_lawful_iff heap hparse hd, collects_lawful_iff heap hparse hd,
    RfidInfoSelectAll.writes_lawful_iff m_filename heap d hparse hd⟩

/-! The header announces five bytes, two of them come with it, and then the connection ends. -/

def closedEarly : Results := fun _ => .closed

theorem closedEarly_delivers (nleaved : Int) : closedEarly.Delivers nleaved :=
  fun _ _ _ h => nomatch h

theorem body_loops_lawful_iff_closedEarly : ∃ h,
    parsingHeader listStack (.data listStart) = some (some h) ∧
    (Lawful (fun rs => (CodeDataSelect.parsing listStack (fun _ => 0) rs).map Option.isSome)
        listStart (h.contentLength - h.readByteContent) closedEarly ↔
      Completes h closedEarly ∨ OneOver h closedEarly) ∧
    (Lawful (fun rs => (RfidInfoSelect.parsing listStack (fun _ => 0) rs).map Option.isSome)
        listStart (h.contentLength - h.readByteContent) closedEarly ↔
      Completes h closedEarly ∨ OneOver h closedEarly) ∧
    (Lawful (fun rs => (RfidInfoSelectAll.parsing "list" listStack (fun _ => 0) rs
        fun _ => none).value) listStart (h.contentLength - h.readByteContent) closedEarly ↔
      Completes h closedEarly) := by
  rcases listStart_parsed with ⟨h, hparse, -⟩
  exact ⟨h, hparse, body_loops_lawful_iff listStack (fun _ => 0) "list" (fun _ => none) hparse
    (closedEarly_delivers _)⟩

/-- No number of closed connections lets the calls return. -/
theorem closedEarly_not_lawful : ∃ h,
    parsingHeader listStack (.data listStart) = some (some h) ∧
    closedEarly.EndsShort (h.contentLength - h.readByteContent) ∧
    ¬ Lawful (fun rs => (CodeDataSelect.parsing listStack (fun _ => 0) rs).map Option.isSome)
      listStart (h.contentLength - h.readByteContent) closedEarly := by
  rcases listStart_parsed with ⟨h, hparse, -, hlength, hread⟩
  have hends : closedEarly.EndsShort (h.contentLength - h.readByteContent) := by
    refine ⟨0, fun m hm => absurd hm (Nat.not_lt_zero m), rfl, ?_⟩
    rw [hlength, hread]
    decide
  refine ⟨h, hparse, hends, fun hlawful => ?_⟩
  rcases (collects_lawful_iff (fun _ => 0) hparse (closedEarly_delivers _)).mp hlawful with hc | ho
  · exact hc.arrives hends
  · have hover := ho.oneMore
    omega

end Acu.Web
