import Acu.Core.Pieces
import Acu.Rfid.Loop

/-!
# Frames cut into reads

The port is opened with `VMIN = VTIME = 0`, so a read returns the bytes that have arrived.
`SerialRfid1356_::requestData` takes a read of another length than five for no frame: it
keeps nothing of it for the next read, and looks for no second frame in it.
-/

namespace Acu.Rfid

open Acu.Core

/-- A frame with the right checksum that the test of the reader accepts. -/
def ValidFrame (b : Bytes) : Prop :=
  ∃ b0 b1 b2 b3 b4, b = [b0, b1, b2, b3, b4] ∧ ChecksumOk b0 b1 b2 b3 b4 ∧
    SerialRfid1356_.frameOk b = true

/-- A stream of valid frames, cut into the results of successive reads with their times. -/
structure Delivery where
  frames : List Bytes
  valid : ∀ b ∈ frames, ValidFrame b
  reads : List (Bytes × Int)
  sizes : ∀ read ∈ reads, 1 ≤ read.1.length ∧ read.1.length ≤ 100
  cut : (reads.map Prod.fst).flatten = frames.flatten

/-- The result of the request that got a read, with the place of the read in the stream. -/
structure Answer where
  place : Nat
  bytes : Bytes
  ret : Int
  deriving DecidableEq, Repr

/-- The requests over the reads of a stream. -/
def answers (r : Reader) (place : Nat) : List (Bytes × Int) → List Answer
  | [] => []
  | (bytes, t) :: reads =>
      match SerialRfid1356_.requestData (.got bytes) t r with
      | .returned (ret, r') => ⟨place, bytes, ret⟩ :: answers r' (place + bytes.length) reads
      | _ => []

/-- Reported, or suppressed as a duplicate. -/
def Answer.Reported (a : Answer) : Prop := a.ret = 1 ∨ a.ret = 0

/-- Every frame is reported or suppressed from its own five bytes, and nothing is from bytes
of two frames. -/
structure EachFrameAnswered (frames : List Bytes) (as : List Answer) : Prop where
  every : ∀ i < frames.length, ∃ a ∈ as, a.place = 5 * i ∧ a.bytes.length = 5 ∧ a.Reported
  single : ∀ a ∈ as, a.Reported →
    ∃ i < frames.length, 5 * i ≤ a.place ∧ a.place + a.bytes.length ≤ 5 * i + 5

/-! ## The answers -/

/-- A read of another length is answered with -1 and leaves the reader as it was. -/
theorem requestData_other_length {bytes : Bytes} (h : bytes.length ≠ 5) (t : Int) (r : Reader) :
    SerialRfid1356_.requestData (.got bytes) t r = .returned (-1, r) := by
  have hlen : ((bytes.length : Int) == 5) = false := by
    rw [beq_eq_false_iff_ne]
    omega
  unfold SerialRfid1356_.requestData
  rw [request_got, hlen, Bool.false_and, if_neg Bool.false_ne_true]

/-- A read is answered, with 1 or 0 exactly when it is five bytes that the test accepts. -/
theorem requestData_answers (bytes : Bytes) (t : Int) (r : Reader) :
    ∃ ret r', SerialRfid1356_.requestData (.got bytes) t r = .returned (ret, r') ∧
      ((ret = 1 ∨ ret = 0) ↔ bytes.length = 5 ∧ SerialRfid1356_.frameOk bytes = true) := by
  by_cases hok : bytes.length = 5 ∧ SerialRfid1356_.frameOk bytes = true
  · have hif : (((bytes.length : Int) == 5) && SerialRfid1356_.frameOk bytes) = true := by
      rw [hok.1, hok.2]
      rfl
    have hret := accept_reports 13 (decimals [3, 2, 1, 0] bytes) t r
    refine ⟨_, (accept 13 (decimals [3, 2, 1, 0] bytes) t r).2, ?_, iff_of_true hret.symm hok⟩
    unfold SerialRfid1356_.requestData
    rw [request_got, if_pos hif]
  · have hif : ¬ (((bytes.length : Int) == 5) && SerialRfid1356_.frameOk bytes) = true := by
      intro h
      apply hok
      obtain ⟨hlen, hframe⟩ := Bool.and_eq_true_iff.mp h
      have hfive := beq_iff_eq.mp hlen
      exact ⟨by omega, hframe⟩
    refine ⟨-1, r, ?_, iff_of_false (by decide) hok⟩
    unfold SerialRfid1356_.requestData
    rw [request_got, if_neg hif]

/-- The answers stand at the places of the reads, and those that report are for the reads that
the test accepts. -/
theorem answers_spec (reads : List (Bytes × Int)) (r : Reader) (place : Nat) :
    (answers r place reads).map (fun a => (a.place, a.bytes)) =
        placed place (reads.map Prod.fst) ∧
      ∀ a ∈ answers r place reads,
        a.Reported ↔ a.bytes.length = 5 ∧ SerialRfid1356_.frameOk a.bytes = true := by
  induction reads generalizing r place with
  | nil => exact ⟨rfl, fun a ha => absurd ha List.not_mem_nil⟩
  | cons read reads ih =>
      rcases read with ⟨bytes, t⟩
      obtain ⟨ret, r', hr, hreported⟩ := requestData_answers bytes t r
      obtain ⟨hplaces, htail⟩ := ih r' (place + bytes.length)
      have hcons : answers r place ((bytes, t) :: reads) =
          ⟨place, bytes, ret⟩ :: answers r' (place + bytes.length) reads := by
        rw [answers, hr]
      rw [hcons]
      constructor
      · rw [List.map_cons, hplaces]
        rfl
      · intro a ha
        cases List.mem_cons.mp ha with
        | inl heq =>
            rw [heq]
            exact hreported
        | inr hmem => exact htail a hmem

theorem mem_answers_iff {reads : List (Bytes × Int)} {r : Reader} {place : Nat}
    {q : Nat × Bytes} : q ∈ placed place (reads.map Prod.fst) ↔
      ∃ a ∈ answers r place reads, (a.place, a.bytes) = q := by
  rw [← (answers_spec reads r place).1, List.mem_map]

namespace Delivery

variable (d : Delivery)

theorem frames_length : ∀ b ∈ d.frames, b.length = 5 := by
  intro b hb
  obtain ⟨b0, b1, b2, b3, b4, heq, -⟩ := d.valid b hb
  rw [heq]
  rfl

theorem reads_ne_nil : ∀ p ∈ d.reads.map Prod.fst, p ≠ [] := by
  intro p hp
  obtain ⟨read, hread, rfl⟩ := List.mem_map.mp hp
  have hsize := (d.sizes read hread).1
  intro hnil
  rw [hnil, List.length_nil] at hsize
  omega

end Delivery

/-- A read that is no frame's length is dropped, and each frame is answered from its own bytes
precisely when every read delivers one frame. -/
theorem answers_frames_iff (d : Delivery) (r : Reader) :
    (∀ read ∈ d.reads, read.1.length ≠ 5 → ∀ r',
      SerialRfid1356_.requestData (.got read.1) read.2 r' = .returned (-1, r')) ∧
    (EachFrameAnswered d.frames (answers r 0 d.reads) ↔ d.reads.map Prod.fst = d.frames) := by
  refine ⟨fun read _ hlen r' => requestData_other_length hlen read.2 r', ?_⟩
  have hspec := (answers_spec d.reads r 0).2
  constructor
  · intro h
    have hplaces : ∀ i < d.frames.length, ∃ q ∈ placed 0 (d.reads.map Prod.fst),
        q.1 = 0 + 5 * i ∧ q.2.length = 5 := by
      intro i hi
      obtain ⟨a, ha, hplace, hlen, -⟩ := h.every i hi
      refine ⟨(a.place, a.bytes), mem_answers_iff.mpr ⟨a, ha, rfl⟩, ?_, hlen⟩
      show a.place = 0 + 5 * i
      omega
    exact pieces_eq_blocks (by decide) d.reads_ne_nil d.frames_length d.cut hplaces
  · intro heq
    constructor
    · intro i hi
      have hb : d.frames[i]? = some d.frames[i] := List.getElem?_eq_getElem hi
      have hmem : (0 + 5 * i, d.frames[i]) ∈ placed 0 (d.reads.map Prod.fst) := by
        rw [heq]
        exact placed_blocks d.frames_length hb
      obtain ⟨a, ha, hq⟩ := (mem_answers_iff (r := r)).mp hmem
      obtain ⟨hplace, hbytes⟩ := Prod.mk.inj hq
      have hframe := List.getElem_mem hi
      obtain ⟨_, _, _, _, _, -, -, hok⟩ := d.valid _ hframe
      have hlen := d.frames_length _ hframe
      rw [← hbytes] at hok hlen
      exact ⟨a, ha, by omega, hlen, (hspec a ha).mpr ⟨hlen, hok⟩⟩
    · intro a ha hreported
      have hmem : (a.place, a.bytes) ∈ placed 0 (d.reads.map Prod.fst) :=
        mem_answers_iff.mpr ⟨a, ha, rfl⟩
      rw [heq] at hmem
      obtain ⟨i, hi, hplace⟩ := placed_blocks_place d.frames_length hmem
      have hlen := ((hspec a ha).mp hreported).1
      have hplace' : a.place = 0 + 5 * i := hplace
      exact ⟨i, hi, by omega, by omega⟩

/-- Two frames of one card, in one cut that loses both and in one that makes a third of them. -/
def splitFrames : List Bytes := [[1, 0, 0, 2, 3], [1, 0, 0, 2, 3]]

theorem validFrame_split : ValidFrame [1, 0, 0, 2, 3] := by
  refine ⟨1, 0, 0, 2, 3, rfl, ?_, by decide⟩
  unfold ChecksumOk
  decide

theorem valid_splitFrames : ∀ b ∈ splitFrames, ValidFrame b := by
  intro b hb
  unfold splitFrames at hb
  simp only [List.mem_cons, List.not_mem_nil, or_false, or_self] at hb
  rw [hb]
  exact validFrame_split

def inHalves : Delivery where
  frames := splitFrames
  valid := valid_splitFrames
  reads := [([1, 0], 100), ([0, 2, 3, 1], 100), ([0, 0, 2, 3], 100)]
  sizes := by decide
  cut := by decide

def acrossFrames : Delivery where
  frames := splitFrames
  valid := valid_splitFrames
  reads := [([1, 0, 0], 100), ([2, 3, 1, 0, 0], 100), ([2, 3], 100)]
  sizes := by decide
  cut := by decide

theorem frames_not_reassembled :
    ¬ EachFrameAnswered inHalves.frames (answers ⟨[], [], 0⟩ 0 inHalves.reads) ∧
      (answers ⟨[], [], 0⟩ 0 inHalves.reads).map Answer.ret = [-1, -1, -1] ∧
      (answers ⟨[], [], 0⟩ 0 acrossFrames.reads).map Answer.ret = [-1, 1, -1] := by
  have hnone : (answers ⟨[], [], 0⟩ 0 inHalves.reads).map Answer.ret = [-1, -1, -1] := by decide
  refine ⟨fun h => ?_, hnone, by decide⟩
  obtain ⟨a, ha, -, -, hreported⟩ := h.every 0 (by decide)
  have hret : a.ret ∈ (answers ⟨[], [], 0⟩ 0 inHalves.reads).map Answer.ret :=
    List.mem_map_of_mem ha
  rw [hnone] at hret
  have hfail : a.ret = -1 := by simpa using hret
  cases hreported with
  | inl h1 => omega
  | inr h0 => omega

end Acu.Rfid
