import Acu.Core.Machine
import Acu.Tools.WavPlayer

/-!
# The threads of the player

Every call of `alsa_play` starts a thread, and all of them read into one buffer and look
at one flag, which `alsa_stop` clears and the next `alsa_play` sets again. A thread that
has not looked at the flag between the two goes on with its own file.
-/

namespace Acu.Tools.WavPlayer

open Acu.Core CMemory

/-- Where a thread stands: before `fopen`, at the test of the loop, before `fread`, and before
`snd_pcm_writei` with the count that `fread` gave. -/
inductive Place where
  | absent
  | created (stack : CharArray headerSize) (file : Bytes)
  | test
  | reading
  | writing (count : Nat)
  | ended

/-- The thread is in a round of its loop. -/
def Place.inRound : Place → Bool
  | reading | writing _ => true
  | _ => false

/-- A thread with its history: whether `alsa_stop` has returned since it was created, and whether
the round it is in was begun before that. -/
structure Thread where
  place : Place
  fp : Bytes
  leavedByte : Int
  stopped : Bool
  inProgress : Bool

/-- A byte of `buf` and the thread that has read it there. -/
structure Sample where
  thread : Option Nat
  byte : UInt8

/-- The threads go by the number of their call. -/
structure Player where
  bPlaying : Bool
  buf : List Sample
  thread : Nat → Thread
  threads : Nat

/-- `prepare` is a thread up to its loop, with the result of `snd_pcm_prepare`. -/
inductive Event where
  | alsa_play (stack : CharArray headerSize) (file : Bytes)
  | alsa_stop
  | prepare (i : Nat) (ok : Bool)
  | test (i : Nat)
  | read (i : Nat)
  | write (i : Nat)

def Thread.stop (t : Thread) : Thread :=
  if t.stopped then t else { t with stopped := true, inProgress := t.place.inRound }

namespace Player

/-- After `alsa_init`. -/
def initialized (buf : List Sample) : Player where
  bPlaying := false
  buf
  thread := fun _ => ⟨.absent, [], 0, true, false⟩
  threads := 0

def setThread (s : Player) (i : Nat) (t : Thread) : Player :=
  { s with thread := fun j => if j = i then t else s.thread j }

/-- What `snd_pcm_writei` is handed. -/
def handed (s : Player) (count : Nat) : List Sample := s.buf.take (count / FRAME_SIZE * FRAME_SIZE)

def step (frames : Nat) (s : Player) : Event → Option Player
  | .alsa_play stack file =>
      some { s.setThread s.threads ⟨.created stack file, [], 0, false, false⟩ with
        bPlaying := true
        threads := s.threads + 1 }
  | .alsa_stop => some { s with bPlaying := false, thread := fun i => (s.thread i).stop }
  | .prepare i ok =>
      let t := s.thread i
      match t.place with
      | .created stack file =>
          if ok then
            some (s.setThread i { t with
              place := .test
              fp := file.drop headerSize
              leavedByte := dataLength stack file })
          else some (s.setThread i { t with place := .ended })
      | _ => none
  | .test i =>
      let t := s.thread i
      match t.place with
      | .test =>
          if s.bPlaying = true ∧ 0 < t.leavedByte then
            some (s.setThread i { t with place := .reading })
          else some (s.setThread i { t with place := .ended })
      | _ => none
  | .read i =>
      let t := s.thread i
      match t.place with
      | .reading =>
          let block := t.fp.take (frames * 2)
          some ({ s with
            buf := block.map (Sample.mk (some i)) ++ s.buf.drop block.length }.setThread i
              { t with place := .writing block.length, fp := t.fp.drop (frames * 2) })
      | _ => none
  | .write i =>
      let t := s.thread i
      match t.place with
      | .writing count =>
          some (s.setThread i { t with
            place := .test
            leavedByte := t.leavedByte - count
            inProgress := false })
      | _ => none

def player (frames : Nat) : Machine Player Event where
  step := step frames

/-- A thread that has been stopped writes no more than the round it was in at that time, and what
the others write has been read by none that has. -/
def Law (s : Player) : Event → Prop
  | .write i => ∀ count, (s.thread i).place = .writing count →
      ((s.thread i).stopped = true → s.handed count ≠ [] → (s.thread i).inProgress = true) ∧
      ((s.thread i).stopped = false → ∀ x ∈ s.handed count, ∀ j, x.thread = some j →
        (s.thread j).stopped = false)
  | _ => True

/-- A step of a thread. -/
def Alone (_ : Player) : Event → Prop
  | .alsa_play _ _ | .alsa_stop => False
  | _ => True

end Player

/-! ## What a thread still has to read -/

/-- The bytes of the next round, when so many are left of the file and of the data. -/
def nextBlock (frames : Nat) (leavedByte : Int) (left : Nat) : Nat :=
  if 0 < leavedByte then min (frames * 2) left else 0

section Work

variable (frames : Nat)

/-- The bytes that the thread reads in the first round it has yet to begin, if nothing stops it
before. -/
def Thread.next (t : Thread) : Nat :=
  match t.place with
  | .created stack file => nextBlock frames (dataLength stack file) (file.drop headerSize).length
  | .test => nextBlock frames t.leavedByte t.fp.length
  | .reading =>
      nextBlock frames (t.leavedByte - (min (frames * 2) t.fp.length : Nat))
        (t.fp.length - frames * 2)
  | .writing count => nextBlock frames (t.leavedByte - count) t.fp.length
  | _ => 0

/-- The bytes that it is about to read. -/
def Thread.current (t : Thread) : Nat :=
  match t.place with
  | .reading => min (frames * 2) t.fp.length
  | _ => 0

/-- The bytes of the round it is in. -/
def Thread.block (t : Thread) : Nat :=
  match t.place with
  | .reading => min (frames * 2) t.fp.length
  | .writing count => count
  | _ => 0

/-- A frame is left for it to write. -/
def Thread.Armed (t : Thread) : Prop := 2 ≤ t.block frames ∨ 2 ≤ t.next frames

end Work

namespace Thread

theorem stop_place (t : Thread) : t.stop.place = t.place := by
  unfold Thread.stop
  split <;> rfl

theorem stop_stopped (t : Thread) : t.stop.stopped = true := by
  unfold Thread.stop
  split
  next h => exact h
  · rfl

theorem stop_block (frames : Nat) (t : Thread) : t.stop.block frames = t.block frames := by
  unfold Thread.stop
  split <;> rfl

theorem block_of_not_inRound {frames : Nat} {t : Thread} (h : t.place.inRound = false) :
    t.block frames = 0 := by
  unfold Thread.block
  cases hplace : t.place with
  | reading => simp [hplace, Place.inRound] at h
  | writing count => simp [hplace, Place.inRound] at h
  | absent => rfl
  | created stack file => rfl
  | test => rfl
  | ended => rfl

end Thread

/-- A sound is played when no thread that has been stopped has a frame left to write in a further
round; and when none of them has anything left to read, if the sound has a frame itself. -/
def Player.Free (frames : Nat) (s : Player) : Event → Prop
  | .alsa_play stack file => ∀ j, (s.thread j).stopped = true →
      (s.thread j).next frames < 2 ∧
        (2 ≤ nextBlock frames (dataLength stack file) (file.drop headerSize).length →
          (s.thread j).next frames = 0 ∧ (s.thread j).current frames = 0)
  | _ => True

namespace Player

@[simp] theorem setThread_self (s : Player) (i : Nat) (t : Thread) :
    (s.setThread i t).thread i = t := if_pos rfl

theorem setThread_ne (s : Player) {i j : Nat} (t : Thread) (h : j ≠ i) :
    (s.setThread i t).thread j = s.thread j := if_neg h

@[simp] theorem setThread_bPlaying (s : Player) (i : Nat) (t : Thread) :
    (s.setThread i t).bPlaying = s.bPlaying := rfl

@[simp] theorem setThread_buf (s : Player) (i : Nat) (t : Thread) :
    (s.setThread i t).buf = s.buf := rfl

/-! ## The invariant -/

/-- While sounds are played that had their way clear: `behind` are the threads that have been
stopped, and `apart` keeps them from the buffer as long as another one has frames to write. -/
structure Clear (frames : Nat) (s : Player) : Prop where
  fresh : ∀ i, s.threads ≤ i → (s.thread i).place = .absent
  cleared : s.bPlaying = false → ∀ i, (s.thread i).stopped = true
  round : ∀ i, (s.thread i).inProgress = true → (s.thread i).place.inRound = true
  behind : s.bPlaying = true → ∀ j, (s.thread j).stopped = true → (s.thread j).next frames < 2
  apart : ∀ k, (s.thread k).stopped = false → (s.thread k).Armed frames →
    ∀ j, (s.thread j).stopped = true →
      (s.thread j).next frames = 0 ∧ (s.thread j).current frames = 0
  own : ∀ k count, (s.thread k).stopped = false → (s.thread k).place = .writing count →
    ∀ x ∈ s.handed count, ∀ j, x.thread = some j → (s.thread j).stopped = false
  idle : ∀ j, (s.thread j).stopped = true → (s.thread j).inProgress = false →
    (s.thread j).block frames < 2

theorem clear_initialized (frames : Nat) (buf : List Sample) : (initialized buf).Clear frames where
  fresh := fun _ _ => rfl
  cleared := fun _ _ => rfl
  round := fun _ h => by cases h
  behind := fun _ _ _ => Nat.zero_lt_two
  apart := fun _ h => by cases h
  own := fun _ _ h => by cases h
  idle := fun _ _ _ => Nat.zero_lt_two

/-- A thread takes a step of its own. -/
structure Moves (frames : Nat) (bPlaying : Bool) (t t' : Thread) : Prop where
  there : t.place ≠ .absent
  stopped : t'.stopped = t.stopped
  round : (t.inProgress = true → t.place.inRound = true) → t'.inProgress = true →
    t'.place.inRound = true
  armed : t'.Armed frames → t.Armed frames
  less : t.next frames < 2 → t'.next frames < 2
  none : t.next frames = 0 → t.current frames = 0 → t'.next frames = 0 ∧ t'.current frames = 0
  idle : (bPlaying = true → t.next frames < 2) → (t.inProgress = false → t.block frames < 2) →
    t'.inProgress = false → t'.block frames < 2

section Step

variable {frames : Nat} {s u : Player} {i : Nat} {t' : Thread}

/-- Such a step keeps the way clear, when it keeps the buffer clear. -/
theorem Clear.move (h : s.Clear frames) (hm : Moves frames s.bPlaying (s.thread i) t')
    (buf : List Sample)
    (hown : ∀ k count, (s.thread k).stopped = false →
      (({ s with buf }.setThread i t').thread k).place = .writing count →
      ∀ x ∈ buf.take (count / FRAME_SIZE * FRAME_SIZE), ∀ j, x.thread = some j →
        (s.thread j).stopped = false) :
    ({ s with buf }.setThread i t').Clear frames := by
  have hthread (j : Nat) : ({ s with buf }.setThread i t').thread j =
      if j = i then t' else s.thread j := rfl
  have hstopped (j : Nat) :
      (({ s with buf }.setThread i t').thread j).stopped = (s.thread j).stopped := by
    rw [hthread]
    by_cases hj : j = i
    · rw [if_pos hj, hj, hm.stopped]
    · rw [if_neg hj]
  refine ⟨?_, ?_, ?_, ?_, ?_, ?_, ?_⟩
  · intro j hj
    have habsent := h.fresh j hj
    rw [hthread, if_neg]
    · exact habsent
    · intro heq
      exact hm.there (heq ▸ habsent)
  · intro hflag j
    rw [hstopped]
    exact h.cleared hflag j
  · intro j
    rw [hthread]
    by_cases hj : j = i
    · rw [if_pos hj]
      exact hm.round (h.round i)
    · rw [if_neg hj]
      exact h.round j
  · intro hflag j
    rw [hstopped, hthread]
    intro hstop
    have hless := h.behind hflag j hstop
    by_cases hj : j = i
    · rw [if_pos hj]
      exact hm.less (hj ▸ hless)
    · rw [if_neg hj]
      exact hless
  · intro k hk harmed j hj
    rw [hstopped] at hk hj
    have harmed' : (s.thread k).Armed frames := by
      rw [hthread] at harmed
      by_cases hki : k = i
      · rw [if_pos hki] at harmed
        rw [hki]
        exact hm.armed harmed
      · rwa [if_neg hki] at harmed
    have hnone := h.apart k hk harmed' j hj
    rw [hthread]
    by_cases hji : j = i
    · rw [if_pos hji]
      rw [hji] at hnone
      exact hm.none hnone.1 hnone.2
    · rw [if_neg hji]
      exact hnone
  · intro k count hk hplace x hx j hj
    rw [hstopped] at hk ⊢
    exact hown k count hk hplace x hx j hj
  · intro j hj
    rw [hstopped] at hj
    rw [hthread]
    by_cases hji : j = i
    · rw [if_pos hji]
      rw [hji] at hj
      exact hm.idle (fun hflag => h.behind hflag i hj) (h.idle i hj)
    · rw [if_neg hji]
      exact h.idle j hj

/-- A step that does not end before a write leaves the buffer as it is. -/
theorem Clear.move_on (h : s.Clear frames) (hm : Moves frames s.bPlaying (s.thread i) t')
    (hplace : ∀ count, t'.place ≠ .writing count) : (s.setThread i t').Clear frames := by
  refine h.move hm s.buf fun k count hk hwriting => ?_
  have hki : k ≠ i := by
    intro heq
    rw [heq, setThread_self] at hwriting
    exact hplace count hwriting
  rw [setThread_ne _ _ hki] at hwriting
  exact h.own k count hk hwriting

/-! ## The steps -/

theorem step_prepare {ok : Bool} (h : step frames s (.prepare i ok) = some u) :
    ∃ stack file, (s.thread i).place = .created stack file ∧
      u = s.setThread i (if ok then
        { s.thread i with
          place := .test
          fp := file.drop headerSize
          leavedByte := dataLength stack file }
        else { s.thread i with place := .ended }) := by
  rw [step] at h
  split at h
  next stack file hplace =>
    refine ⟨stack, file, hplace, ?_⟩
    cases ok <;> exact (Option.some.inj h).symm
  · cases h

theorem step_test (h : step frames s (.test i) = some u) :
    (s.thread i).place = .test ∧
      u = s.setThread i { s.thread i with
        place :=
          if s.bPlaying = true ∧ 0 < (s.thread i).leavedByte then .reading else .ended } := by
  rw [step] at h
  split at h
  next hplace =>
    refine ⟨hplace, ?_⟩
    split at h
    next hpass =>
      rw [if_pos hpass]
      exact (Option.some.inj h).symm
    next hpass =>
      rw [if_neg hpass]
      exact (Option.some.inj h).symm
  · cases h

theorem step_read (h : step frames s (.read i) = some u) :
    (s.thread i).place = .reading ∧
      u = { s with
        buf := ((s.thread i).fp.take (frames * 2)).map (Sample.mk (some i)) ++
          s.buf.drop ((s.thread i).fp.take (frames * 2)).length }.setThread i
        { s.thread i with
          place := .writing ((s.thread i).fp.take (frames * 2)).length
          fp := (s.thread i).fp.drop (frames * 2) } := by
  rw [step] at h
  split at h
  next hplace => exact ⟨hplace, (Option.some.inj h).symm⟩
  · cases h

theorem step_write (h : step frames s (.write i) = some u) :
    ∃ count, (s.thread i).place = .writing count ∧
      u = s.setThread i { s.thread i with
        place := .test
        leavedByte := (s.thread i).leavedByte - count
        inProgress := false } := by
  rw [step] at h
  split at h
  next count hplace => exact ⟨count, hplace, (Option.some.inj h).symm⟩
  · cases h

theorem clear_prepare (h : s.Clear frames) {ok : Bool}
    (hstep : step frames s (.prepare i ok) = some u) : u.Clear frames := by
  obtain ⟨stack, file, hplace, rfl⟩ := step_prepare hstep
  have hthere : (s.thread i).place ≠ .absent := by simp [hplace]
  cases ok with
  | false =>
      refine h.move_on ⟨hthere, rfl, ?_, ?_, ?_, ?_, ?_⟩ (by simp)
      · simp [hplace, Place.inRound]
      · simp [Thread.Armed, Thread.block, Thread.next]
      · simp [Thread.next]
      · simp [Thread.next, Thread.current]
      · simp [Thread.block]
  | true =>
      refine h.move_on ⟨hthere, rfl, ?_, ?_, ?_, ?_, ?_⟩ (by simp)
      · simp [hplace, Place.inRound]
      · simp [Thread.Armed, Thread.block, Thread.next, hplace]
      · simp [Thread.next, hplace]
      · simp [Thread.next, Thread.current, hplace]
      · simp [Thread.block]

/-- Behind a round in which there was nothing to write there is nothing to read. -/
theorem nextBlock_behind {leavedByte : Int} (leavedByte' : Int) {left : Nat}
    (h : 0 < leavedByte) :
    nextBlock frames leavedByte' (left - frames * 2) ≤ nextBlock frames leavedByte left ∧
      (nextBlock frames leavedByte left < 2 →
        nextBlock frames leavedByte' (left - frames * 2) = 0) := by
  simp only [nextBlock, if_pos h]
  split <;> omega

theorem clear_test (h : s.Clear frames) (hstep : step frames s (.test i) = some u) :
    u.Clear frames := by
  obtain ⟨hplace, rfl⟩ := step_test hstep
  have hthere : (s.thread i).place ≠ .absent := by simp [hplace]
  by_cases hpass : s.bPlaying = true ∧ 0 < (s.thread i).leavedByte
  · rw [if_pos hpass]
    have hnext : nextBlock frames (s.thread i).leavedByte (s.thread i).fp.length =
        min (frames * 2) (s.thread i).fp.length := if_pos hpass.2
    have hbehind (left : Nat) := @nextBlock_behind frames _
      ((s.thread i).leavedByte - (min (frames * 2) (s.thread i).fp.length : Nat)) left hpass.2
    obtain ⟨hle, hzero⟩ := hbehind (s.thread i).fp.length
    refine h.move_on ⟨hthere, rfl, ?_, ?_, ?_, ?_, ?_⟩ (by simp)
    · simp [Place.inRound]
    · simp only [Thread.Armed, Thread.block, Thread.next, hplace]
      omega
    · simp only [Thread.next, hplace]
      omega
    · simp only [Thread.next, Thread.current, hplace]
      omega
    · simp only [Thread.next, Thread.block, hplace]
      intro hflag _ _
      have hless := hflag hpass.1
      omega
  · rw [if_neg hpass]
    refine h.move_on ⟨hthere, rfl, ?_, ?_, ?_, ?_, ?_⟩ (by simp)
    · simp [hplace, Place.inRound]
    · simp [Thread.Armed, Thread.block, Thread.next]
    · simp [Thread.next]
    · simp [Thread.next, Thread.current]
    · simp [Thread.block]

theorem clear_write (h : s.Clear frames) (hstep : step frames s (.write i) = some u) :
    u.Clear frames := by
  obtain ⟨count, hplace, rfl⟩ := step_write hstep
  refine h.move_on ⟨by simp [hplace], rfl, ?_, ?_, ?_, ?_, ?_⟩ (by simp)
  · simp
  · simp only [Thread.Armed, Thread.block, Thread.next, hplace]
    omega
  · simp [Thread.next, hplace]
  · simp [Thread.next, Thread.current, hplace]
  · simp [Thread.block]

/-- What stands in the buffer where a block has been read over its start. -/
theorem mem_overwritten {α : Type} {a b : List α} {n : Nat} {x : α}
    (h : x ∈ (a ++ b.drop a.length).take n) : x ∈ a.take n ∨ x ∈ b.take n := by
  rw [List.take_append, List.mem_append] at h
  cases h with
  | inl h => exact .inl h
  | inr h =>
      rw [← List.drop_take] at h
      exact .inr (List.mem_of_mem_drop h)

theorem clear_read (h : s.Clear frames) (hstep : step frames s (.read i) = some u) :
    u.Clear frames := by
  obtain ⟨hplace, rfl⟩ := step_read hstep
  have hthere : (s.thread i).place ≠ .absent := by simp [hplace]
  have hlength : ((s.thread i).fp.take (frames * 2)).length =
      min (frames * 2) (s.thread i).fp.length := List.length_take
  have hleft : ((s.thread i).fp.drop (frames * 2)).length =
      (s.thread i).fp.length - frames * 2 := List.length_drop
  have hmoves : Moves frames s.bPlaying (s.thread i)
      { s.thread i with
        place := .writing ((s.thread i).fp.take (frames * 2)).length
        fp := (s.thread i).fp.drop (frames * 2) } := by
    refine ⟨hthere, rfl, ?_, ?_, ?_, ?_, ?_⟩
    · simp [Place.inRound]
    · simp only [Thread.Armed, Thread.block, Thread.next, hplace, hlength, hleft]
      exact id
    · simp only [Thread.next, hplace, hlength, hleft]
      exact id
    · simp only [Thread.next, Thread.current, hplace, hlength, hleft]
      intro hnext _
      exact ⟨hnext, trivial⟩
    · simp only [Thread.block, hplace, hlength]
      intro _ hblock
      exact hblock
  refine h.move hmoves _ fun k count hk hwriting x hx j hj => ?_
  have hmine : x ∈ ((s.thread i).fp.take (frames * 2)).map (Sample.mk (some i)) → j = i := by
    intro hx
    obtain ⟨byte, -, rfl⟩ := List.mem_map.mp hx
    exact (Option.some.inj hj).symm
  by_cases hki : k = i
  · -- the thread that has read writes its own block
    rw [hki, setThread_self] at hwriting
    cases hwriting
    rw [List.take_append_of_le_length] at hx
    · rw [hmine (List.mem_of_mem_take hx), ← hki]
      exact hk
    · rw [List.length_map, FRAME_SIZE]
      exact Nat.div_mul_le_self _ 2
  · rw [setThread_ne _ _ hki] at hwriting
    rw [← List.length_map (f := Sample.mk (some i))] at hx
    cases mem_overwritten hx with
    | inl hx =>
        -- a stopped thread reads nothing while another one has frames to write
        rw [hmine (List.mem_of_mem_take hx)]
        by_contra hstop
        rw [Bool.not_eq_false] at hstop
        by_cases hcount : 2 ≤ count
        · have harmed : (s.thread k).Armed frames := by
            refine .inl ?_
            rw [Thread.block, hwriting]
            exact hcount
          have hcurrent := (h.apart k hk harmed i hstop).2
          rw [Thread.current, hplace] at hcurrent
          have hnil : (s.thread i).fp.take (frames * 2) = [] :=
            List.eq_nil_of_length_eq_zero (hlength.trans hcurrent)
          rw [hnil] at hx
          simp at hx
        · have hzero : count / FRAME_SIZE * FRAME_SIZE = 0 := by
            rw [FRAME_SIZE]
            omega
          rw [hzero] at hx
          simp at hx
    | inr hx => exact h.own k count hk hwriting x hx j hj

/-- With nobody playing there is nothing to be kept apart. -/
theorem clear_alsa_stop (h : s.Clear frames) :
    ({ s with bPlaying := false, thread := fun i => (s.thread i).stop } : Player).Clear frames where
  fresh := by
    intro i hi
    change (s.thread i).stop.place = .absent
    rw [Thread.stop_place]
    exact h.fresh i hi
  cleared := fun _ i => (s.thread i).stop_stopped
  round := by
    intro i hin
    change (s.thread i).stop.inProgress = true at hin
    change (s.thread i).stop.place.inRound = true
    rw [Thread.stop_place]
    unfold Thread.stop at hin
    split at hin
    · exact h.round i hin
    · exact hin
  behind := by
    intro hflag
    cases hflag
  apart := by
    intro k hk
    rw [Thread.stop_stopped] at hk
    cases hk
  own := by
    intro k count hk
    rw [Thread.stop_stopped] at hk
    cases hk
  idle := by
    intro j _ hin
    change (s.thread j).stop.block frames < 2
    change (s.thread j).stop.inProgress = false at hin
    rw [Thread.stop_block]
    unfold Thread.stop at hin
    split at hin
    next hstop => exact h.idle j hstop hin
    · rw [Thread.block_of_not_inRound hin]
      exact Nat.zero_lt_two

theorem clear_alsa_play (h : s.Clear frames) {stack : CharArray headerSize} {file : Bytes}
    (hfree : s.Free frames (.alsa_play stack file)) :
    ({ s.setThread s.threads ⟨.created stack file, [], 0, false, false⟩ with
      bPlaying := true
      threads := s.threads + 1 } : Player).Clear frames := by
  have hthread (j : Nat) : ({ s.setThread s.threads ⟨.created stack file, [], 0, false, false⟩ with
      bPlaying := true
      threads := s.threads + 1 } : Player).thread j =
      if j = s.threads then ⟨.created stack file, [], 0, false, false⟩ else s.thread j := rfl
  refine ⟨?_, ?_, ?_, ?_, ?_, ?_, ?_⟩
  · intro j hj
    have hne : j ≠ s.threads := by
      intro heq
      rw [heq] at hj
      exact Nat.not_succ_le_self s.threads hj
    rw [hthread, if_neg hne]
    exact h.fresh j (Nat.le_of_succ_le hj)
  · intro hflag
    cases hflag
  · intro j
    rw [hthread]
    split
    · intro hin
      cases hin
    · exact h.round j
  · intro _ j
    rw [hthread]
    split
    · intro hstop
      cases hstop
    · intro hstop
      exact (hfree j hstop).1
  · intro k hk harmed j hj
    rw [hthread] at hk harmed hj ⊢
    split at hj
    · cases hj
    next hjne =>
      rw [if_neg hjne]
      split at harmed
      · -- the new thread has frames to write
        refine (hfree j hj).2 ?_
        cases harmed with
        | inl hblock => exact absurd hblock (by simp [Thread.block])
        | inr hnext => exact hnext
      next hkne =>
        rw [if_neg hkne] at hk
        exact h.apart k hk harmed j hj
  · intro k count hk hwriting x hx j hj
    rw [hthread] at hk hwriting ⊢
    split at hwriting
    · cases hwriting
    next hkne =>
      rw [if_neg hkne] at hk
      split
      · rfl
      · exact h.own k count hk hwriting x hx j hj
  · intro j hj hin
    rw [hthread] at hj hin ⊢
    split at hj
    · cases hj
    next hjne =>
      rw [if_neg hjne] at hin ⊢
      exact h.idle j hj hin

theorem clear_step (h : s.Clear frames) {e : Event} (hfree : s.Free frames e)
    (hstep : step frames s e = some u) : u.Clear frames := by
  cases e with
  | alsa_play stack file =>
      cases hstep
      exact clear_alsa_play h hfree
  | alsa_stop =>
      cases hstep
      exact clear_alsa_stop h
  | prepare i ok => exact clear_prepare h hstep
  | test i => exact clear_test h hstep
  | read i => exact clear_read h hstep
  | write i => exact clear_write h hstep

theorem handed_small (s : Player) {count : Nat} (h : count < 2) : s.handed count = [] := by
  have hzero : count / FRAME_SIZE * FRAME_SIZE = 0 := by
    rw [FRAME_SIZE]
    omega
  rw [handed, hzero, List.take_zero]

theorem law_of_clear (h : s.Clear frames) (e : Event) : s.Law e := by
  cases e with
  | write i =>
      intro count hplace
      refine ⟨fun hstop hsome => ?_, fun hstop => h.own i count hstop hplace⟩
      by_contra hin
      have hsmall := h.idle i hstop (Bool.not_eq_true _ ▸ hin)
      rw [Thread.block, hplace] at hsmall
      exact hsome (s.handed_small hsmall)
  | alsa_play stack file => trivial
  | alsa_stop => trivial
  | prepare i ok => trivial
  | test i => trivial
  | read i => trivial

end Step

/-! ## A sound that is played too early -/

section Doom

variable {frames : Nat} {s u v : Player} {i j k : Nat}

/-- Without a further call the threads can go on to a write that should not be. -/
def Doomed (frames : Nat) (s : Player) : Prop :=
  ∃ es, (player frames).AllSteps Alone s es ∧ ¬ (player frames).AllSteps Law s es

/-- The thread `j` has taken some steps and no other thread has. -/
structure Goes (frames j : Nat) (s u : Player) : Prop where
  run : ∃ es, (player frames).run s es = some u ∧ (player frames).AllSteps Alone s es
  bPlaying : u.bPlaying = s.bPlaying
  others : ∀ i, i ≠ j → u.thread i = s.thread i
  stopped : (u.thread j).stopped = (s.thread j).stopped

theorem Goes.trans (h : Goes frames j s u) (h' : Goes frames j u v) : Goes frames j s v where
  run := by
    obtain ⟨es, hrun, halone⟩ := h.run
    obtain ⟨es', hrun', halone'⟩ := h'.run
    refine ⟨es ++ es', ?_, ?_⟩
    · rw [Machine.run_append, hrun, Option.bind_some, hrun']
    · refine (Machine.allSteps_append (player frames)).mpr ⟨halone, fun t ht => ?_⟩
      rw [hrun] at ht
      cases ht
      exact halone'
  bPlaying := h'.bPlaying.trans h.bPlaying
  others := fun i hi => (h'.others i hi).trans (h.others i hi)
  stopped := h'.stopped.trans h.stopped

/-- One step. -/
theorem Goes.step {e : Event} {t' : Thread} {buf : List Sample} (halone : Alone s e)
    (hstep : Player.step frames s e = some ({ s with buf }.setThread j t'))
    (hstopped : t'.stopped = (s.thread j).stopped) :
    Goes frames j s ({ s with buf }.setThread j t') where
  run := by
    refine ⟨[e], ?_, Machine.AllSteps.cons hstep halone trivial⟩
    rw [Machine.run_cons]
    exact congrArg (fun t => t.bind fun t => some t) hstep
  bPlaying := rfl
  others := fun i hi => setThread_ne _ _ hi
  stopped := by rw [setThread_self, hstopped]

theorem Doomed.of_goes (h : Goes frames j s u) (hu : u.Doomed frames) : s.Doomed frames := by
  obtain ⟨es, hrun, halone⟩ := h.run
  rcases hu with ⟨es', halone', hlaw⟩
  refine ⟨es ++ es', ?_, fun hall => ?_⟩
  · refine (Machine.allSteps_append (player frames)).mpr ⟨halone, fun t ht => ?_⟩
    rw [hrun] at ht
    cases ht
    exact halone'
  · exact hlaw (((Machine.allSteps_append (player frames)).mp hall).2 u hrun)

theorem Doomed.of_write {count : Nat} (hplace : (s.thread i).place = .writing count)
    (hlaw : ¬ s.Law (.write i)) : s.Doomed frames := by
  have hstep : step frames s (.write i) = some (s.setThread i { s.thread i with
      place := .test
      leavedByte := (s.thread i).leavedByte - count
      inProgress := false }) := by
    rw [Player.step]
    simp only [hplace]
  refine ⟨[.write i], Machine.AllSteps.cons hstep trivial trivial, fun hall => ?_⟩
  exact hlaw (hall _ hstep).1

/-- A thread begins its next round. -/
theorem goes_from_test (frames : Nat) (hflag : s.bPlaying = true)
    (hplace : (s.thread j).place = .test) (hin : (s.thread j).inProgress = false)
    (hnext : (s.thread j).next frames ≠ 0) :
    ∃ u, Goes frames j s u ∧ (u.thread j).place = .reading ∧
      (u.thread j).inProgress = false ∧
      (u.thread j).current frames = (s.thread j).next frames := by
  have hblock : (s.thread j).next frames =
      nextBlock frames (s.thread j).leavedByte (s.thread j).fp.length := by
    rw [Thread.next, hplace]
  have hpos : 0 < (s.thread j).leavedByte := by
    by_contra hno
    rw [hblock, nextBlock, if_neg hno] at hnext
    exact hnext rfl
  have hstep : step frames s (.test j) =
      some ({ s with buf := s.buf }.setThread j { s.thread j with place := .reading }) := by
    rw [Player.step]
    simp only [hplace]
    exact if_pos ⟨hflag, hpos⟩
  have halone : Alone s (.test j) := trivial
  refine ⟨_, Goes.step halone hstep rfl, ?_, ?_, ?_⟩
  · rw [setThread_self]
  · rw [setThread_self]
    exact hin
  · rw [setThread_self, hblock, nextBlock, if_pos hpos]
    rfl

theorem goes_from_writing {count : Nat} (hflag : s.bPlaying = true)
    (hplace : (s.thread j).place = .writing count) (hnext : (s.thread j).next frames ≠ 0) :
    ∃ u, Goes frames j s u ∧ (u.thread j).place = .reading ∧
      (u.thread j).inProgress = false ∧
      (u.thread j).current frames = (s.thread j).next frames := by
  have hstep : step frames s (.write j) =
      some ({ s with buf := s.buf }.setThread j { s.thread j with
        place := .test
        leavedByte := (s.thread j).leavedByte - count
        inProgress := false }) := by
    rw [Player.step]
    simp only [hplace]
  have hsame : ({ s with buf := s.buf }.setThread j { s.thread j with
      place := .test
      leavedByte := (s.thread j).leavedByte - count
      inProgress := false } |>.thread j).next frames = (s.thread j).next frames := by
    rw [setThread_self, Thread.next, Thread.next, hplace]
  obtain ⟨u, hgoes, hreading, hin, hcurrent⟩ := goes_from_test frames
    (s := { s with buf := s.buf }.setThread j { s.thread j with
      place := .test
      leavedByte := (s.thread j).leavedByte - count
      inProgress := false }) hflag (by rw [setThread_self]) (by rw [setThread_self])
    (by rw [hsame]; exact hnext)
  have halone : Alone s (.write j) := trivial
  exact ⟨u, (Goes.step halone hstep rfl).trans hgoes, hreading, hin, hcurrent.trans hsame⟩

/-- What a thread reads stands at the start of the buffer. -/
theorem goes_from_reading (frames : Nat) (hplace : (s.thread j).place = .reading) :
    ∃ u, Goes frames j s u ∧ (u.thread j).place = .writing ((s.thread j).current frames) ∧
      (u.thread j).inProgress = (s.thread j).inProgress ∧
      (u.thread j).next frames = (s.thread j).next frames ∧
      ∃ (block : Bytes) (rest : List Sample), u.buf = block.map (Sample.mk (some j)) ++ rest ∧
        block.length = (s.thread j).current frames := by
  have hcurrent : ((s.thread j).fp.take (frames * 2)).length = (s.thread j).current frames := by
    rw [Thread.current, hplace, List.length_take]
  have hstep : step frames s (.read j) = some ({ s with
      buf := ((s.thread j).fp.take (frames * 2)).map (Sample.mk (some j)) ++
        s.buf.drop ((s.thread j).fp.take (frames * 2)).length }.setThread j
      { s.thread j with
        place := .writing ((s.thread j).fp.take (frames * 2)).length
        fp := (s.thread j).fp.drop (frames * 2) }) := by
    rw [Player.step]
    simp only [hplace]
  have halone : Alone s (.read j) := trivial
  refine ⟨_, Goes.step halone hstep rfl, ?_, ?_, ?_, _, _, rfl, hcurrent⟩
  · rw [setThread_self, hcurrent]
  · rw [setThread_self]
  · rw [setThread_self, Thread.next, Thread.next, hplace]
    simp only [List.length_take, List.length_drop]

theorem goes_to_round (frames : Nat) (hflag : s.bPlaying = true)
    (hround : (s.thread j).inProgress = true → (s.thread j).place.inRound = true)
    (hnext : (s.thread j).next frames ≠ 0) :
    ∃ u, Goes frames j s u ∧ (u.thread j).place = .reading ∧
      (u.thread j).inProgress = false ∧
      (u.thread j).current frames = (s.thread j).next frames := by
  have hoff (h : (s.thread j).place.inRound = false) : (s.thread j).inProgress = false := by
    by_contra hin
    rw [hround (Bool.not_eq_false _ ▸ hin)] at h
    cases h
  cases hplace : (s.thread j).place with
  | absent => simp [Thread.next, hplace] at hnext
  | ended => simp [Thread.next, hplace] at hnext
  | test => exact goes_from_test frames hflag hplace (hoff (by rw [hplace]; rfl)) hnext
  | writing count => exact goes_from_writing hflag hplace hnext
  | created stack file =>
      have hin := hoff (by rw [hplace]; rfl)
      have hstep : step frames s (.prepare j true) =
          some ({ s with buf := s.buf }.setThread j { s.thread j with
            place := .test
            fp := file.drop headerSize
            leavedByte := dataLength stack file }) := by
        rw [Player.step]
        simp only [hplace]
        rfl
      have hsame : ({ s with buf := s.buf }.setThread j { s.thread j with
          place := .test
          fp := file.drop headerSize
          leavedByte := dataLength stack file } |>.thread j).next frames =
          (s.thread j).next frames := by
        rw [setThread_self, Thread.next, Thread.next, hplace]
      obtain ⟨u, hgoes, hreading, hoff', hcurrent⟩ := goes_from_test frames
        (s := { s with buf := s.buf }.setThread j { s.thread j with
          place := .test
          fp := file.drop headerSize
          leavedByte := dataLength stack file }) hflag (by rw [setThread_self])
        (by rw [setThread_self]; exact hin) (by rw [hsame]; exact hnext)
      have halone : Alone s (.prepare j true) := trivial
      exact ⟨u, (Goes.step halone hstep rfl).trans hgoes, hreading, hoff', hcurrent.trans hsame⟩
  | reading =>
      obtain ⟨u, hgoes, hwriting, -, hsame, -⟩ := goes_from_reading frames hplace
      obtain ⟨v, hgoes', hreading, hin, hcurrent⟩ :=
        goes_from_writing (hgoes.bPlaying.trans hflag) hwriting (hsame ▸ hnext)
      exact ⟨v, hgoes.trans hgoes', hreading, hin, hcurrent.trans hsame⟩

/-- A stopped thread that has frames left for a further round will write them. -/
theorem doomed_of_next (hflag : s.bPlaying = true) (hstop : (s.thread j).stopped = true)
    (hround : (s.thread j).inProgress = true → (s.thread j).place.inRound = true)
    (hnext : 2 ≤ (s.thread j).next frames) : s.Doomed frames := by
  have hne : (s.thread j).next frames ≠ 0 := by omega
  obtain ⟨u, hgoes, hreading, hin, hcurrent⟩ := goes_to_round frames hflag hround hne
  obtain ⟨v, hgoes', hwriting, hin', -, block, rest, hbuf, hlength⟩ :=
    goes_from_reading frames hreading
  refine Doomed.of_goes (hgoes.trans hgoes') (Doomed.of_write hwriting fun hlaw => ?_)
  have hv := (hlaw _ hwriting).1 (by rw [hgoes'.stopped, hgoes.stopped]; exact hstop) ?_
  · rw [hin', hin] at hv
    cases hv
  · intro hnil
    have hlen := congrArg List.length hnil
    rw [handed, hbuf, FRAME_SIZE] at hlen
    simp only [List.length_take, List.length_append, List.length_map, hlength,
      List.length_nil] at hlen
    omega

/-- A stopped thread that is about to read does so over what another one is about to write. -/
theorem doomed_of_reading {count : Nat} (hstop : (s.thread j).stopped = true)
    (hreading : (s.thread j).place = .reading) (hcurrent : (s.thread j).current frames ≠ 0)
    (hk : (s.thread k).stopped = false) (hplace : (s.thread k).place = .writing count)
    (hcount : 2 ≤ count) : s.Doomed frames := by
  have hkj : k ≠ j := by
    intro heq
    rw [heq, hstop] at hk
    cases hk
  obtain ⟨u, hgoes, -, -, -, block, rest, hbuf, hlength⟩ :=
    goes_from_reading frames hreading
  have hplace' : (u.thread k).place = .writing count := by rw [hgoes.others k hkj, hplace]
  refine Doomed.of_goes hgoes (Doomed.of_write hplace' fun hlaw => ?_)
  have hread := (hlaw count hplace').2 (by rw [hgoes.others k hkj, hk])
  cases block with
  | nil => exact hcurrent hlength.symm
  | cons b block =>
      have hmem : Sample.mk (some j) b ∈ u.handed count := by
        obtain ⟨n, hn⟩ : ∃ n, count / FRAME_SIZE * FRAME_SIZE = n + 1 :=
          ⟨count / FRAME_SIZE * FRAME_SIZE - 1, by rw [FRAME_SIZE]; omega⟩
        rw [handed, hbuf, hn, List.map_cons, List.cons_append, List.take_succ_cons]
        exact List.mem_cons_self
      have hnot := hread _ hmem j rfl
      rw [hgoes.stopped, hstop] at hnot
      cases hnot

/-- One that has anything left to read gets there. -/
theorem doomed_of_unread {count : Nat} (hflag : s.bPlaying = true)
    (hstop : (s.thread j).stopped = true)
    (hround : (s.thread j).inProgress = true → (s.thread j).place.inRound = true)
    (hunread : (s.thread j).next frames ≠ 0 ∨ (s.thread j).current frames ≠ 0)
    (hk : (s.thread k).stopped = false) (hplace : (s.thread k).place = .writing count)
    (hcount : 2 ≤ count) : s.Doomed frames := by
  by_cases hcurrent : (s.thread j).current frames = 0
  · have hnext := hunread.resolve_right (not_not_intro hcurrent)
    have hkj : k ≠ j := by
      intro heq
      rw [heq, hstop] at hk
      cases hk
    obtain ⟨u, hgoes, hreading, -, hsame⟩ := goes_to_round frames hflag hround hnext
    refine Doomed.of_goes hgoes (doomed_of_reading (k := k) ?_ hreading ?_ ?_ ?_
      hcount)
    · rw [hgoes.stopped, hstop]
    · rw [hsame]
      exact hnext
    · rw [hgoes.others k hkj, hk]
    · rw [hgoes.others k hkj, hplace]
  · have hreading : (s.thread j).place = .reading := by
      cases hj : (s.thread j).place with
      | reading => rfl
      | absent => simp [Thread.current, hj] at hcurrent
      | created stack file => simp [Thread.current, hj] at hcurrent
      | test => simp [Thread.current, hj] at hcurrent
      | writing n => simp [Thread.current, hj] at hcurrent
      | ended => simp [Thread.current, hj] at hcurrent
    exact doomed_of_reading hstop hreading hcurrent hk hplace hcount

theorem doomed_of_not_free {e : Event} (h : s.Clear frames) (hfree : ¬ s.Free frames e)
    (hstep : step frames s e = some u) : u.Doomed frames := by
  cases e with
  | alsa_play stack file =>
      rw [Player.Free, not_forall] at hfree
      rcases hfree with ⟨j, hj⟩
      rw [Classical.not_imp] at hj
      rcases hj with ⟨hstop, hwork⟩
      have hjk : j ≠ s.threads := by
        intro heq
        have habsent := h.fresh j (by rw [heq])
        exact hwork (by simp [Thread.next, Thread.current, habsent])
      cases hstep
      have hthread (i : Nat) : ({ s.setThread s.threads ⟨.created stack file, [], 0, false, false⟩
          with bPlaying := true, threads := s.threads + 1 } : Player).thread i =
          if i = s.threads then ⟨.created stack file, [], 0, false, false⟩ else s.thread i := rfl
      have hold := (hthread j).trans (if_neg hjk)
      have hnew := (hthread s.threads).trans (if_pos rfl)
      by_cases hnext : (s.thread j).next frames < 2
      · -- the new thread comes to its first write, and the old one reads before it
        obtain ⟨hblock, hunread⟩ : 2 ≤ nextBlock frames (dataLength stack file)
            (file.drop headerSize).length ∧
            ((s.thread j).next frames ≠ 0 ∨ (s.thread j).current frames ≠ 0) := by
          by_contra hno
          refine hwork ⟨hnext, fun hblock => ?_⟩
          by_contra hsome
          rw [not_and_or] at hsome
          exact hno ⟨hblock, hsome⟩
        obtain ⟨v, hgoes, hreading, -, hcurrent⟩ := goes_to_round frames (j := s.threads)
          (s := { s.setThread s.threads ⟨.created stack file, [], 0, false, false⟩
            with bPlaying := true, threads := s.threads + 1 }) rfl
          (by rw [hnew]; intro hin; cases hin)
          (by rw [hnew]; exact Nat.ne_of_gt (Nat.lt_of_lt_of_le Nat.zero_lt_two hblock))
        obtain ⟨w, hgoes', hwriting, -⟩ := goes_from_reading frames hreading
        have hboth := hgoes.trans hgoes'
        have hj' := (hboth.others j hjk).trans hold
        refine Doomed.of_goes hboth
          (doomed_of_unread (j := j) hboth.bPlaying ?_ ?_ ?_ ?_ hwriting ?_)
        · rw [hj', hstop]
        · rw [hj']
          exact h.round j
        · rw [hj']
          exact hunread
        · rw [hboth.stopped, hnew]
        · rw [hcurrent, hnew]
          exact hblock
      · refine doomed_of_next (j := j) rfl ?_ ?_ ?_
        · rw [hold, hstop]
        · rw [hold]
          exact h.round j
        · rw [hold]
          omega
  | alsa_stop => exact absurd trivial hfree
  | prepare i ok => exact absurd trivial hfree
  | test i => exact absurd trivial hfree
  | read i => exact absurd trivial hfree
  | write i => exact absurd trivial hfree

end Doom

/-- Threads that have been stopped stay silent, wherever the run is left to the threads, precisely
when every sound is played with its way clear. -/
theorem stopped_silent_iff (frames : Nat) (buf : List Sample) (es : List Event) :
    (player frames).AllSteps (Free frames) (initialized buf) es ↔
      ∀ pre s rest, pre <+: es → (player frames).run (initialized buf) pre = some s →
        (player frames).AllSteps Alone s rest →
        (player frames).AllSteps Law (initialized buf) (pre ++ rest) := by
  refine Machine.allSteps_iff_left_alone (I := Clear frames) ?_ ?_ ?_ ?_
    (clear_initialized frames buf) es
  · intro s e t h hfree hstep
    exact clear_step h hfree hstep
  · intro s e t h _ _
    exact law_of_clear h e
  · intro s e t _ halone _
    cases e with
    | alsa_play stack file => exact halone.elim
    | alsa_stop => trivial
    | prepare i ok => trivial
    | test i => trivial
    | read i => trivial
    | write i => trivial
  · intro s e t h hfree hstep
    exact doomed_of_not_free h hfree hstep

/-- Two frames of silence. -/
def soundFile : Bytes := truncatedFile ++ [0, 0, 0, 0]

/-- A sound is stopped and another one is played before the thread of the first looks at the
flag. -/
def stoppedAndPlayed : List Event :=
  [.alsa_play emptyHeader soundFile, .prepare 0 true, .alsa_stop,
    .alsa_play emptyHeader soundFile, .test 0, .read 0]

theorem stopped_plays_on :
    ¬ (player 32).AllSteps Law (initialized []) (stoppedAndPlayed ++ [.write 0]) := by
  intro h
  have hlaw := ((Machine.allSteps_append (player 32)).mp h).2 _ rfl _ rfl
  have hin := (hlaw.1 4 rfl).1 rfl (List.cons_ne_nil _ _)
  cases hin

end Player

end Acu.Tools.WavPlayer
