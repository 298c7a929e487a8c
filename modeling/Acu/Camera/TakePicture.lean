import Acu.Camera.CameraStill

/-!
# A picture and its frame

`takePicture` and the threads of the captures it starts, in the steps between which the other
ones can run. Every call that gets as far as the encoder starts a capture, and captures go by
the number of their call. What runs under the mutex is one step. A handler that is installed
with `signal` does not end a `sem_timedwait`, which times out only while it cannot be had.
-/

namespace Acu.Camera

open Acu.Core

structure Semaphore where
  m_count : Nat
  value : Nat
  deriving DecidableEq, Repr

namespace Semaphore

def reset (sem : Semaphore) : Semaphore := { sem with value := sem.m_count }

def post (sem : Semaphore) : Semaphore := { sem with value := sem.value + 1 }

end Semaphore

/-- A frame of a capture; `number` tells the frames of all captures apart. -/
structure Frame where
  capture : Nat
  number : Nat
  size : Int
  deriving DecidableEq, Repr

inductive BufferStatus where
  | NONE_S
  | EOF_S
  | EOS_S
  deriving DecidableEq, Repr

/-- What the encoder has put into the buffer: data without a flag, the data that end a frame, or
the end of the stream without data. -/
inductive Buffer where
  | slice
  | endOfFrame (size : Int)
  | endOfStream
  deriving DecidableEq, Repr

/-- Where a thread stands in `capturing`: before `m_bufferStatus = NONE_S`, before and behind the
wait for `sem_EventComplete`, in `cbEndOfFrame` before and behind the store of the length it was
called with, and in `cbEndOfStream`. -/
inductive Capturing where
  | absent
  | created
  | filling
  | waiting
  | filled
  | endOfFrame (length : Option Frame)
  | stored (length : Option Frame)
  | endOfStream
  | ended
  deriving DecidableEq, Repr

/-- Where the caller of `takePicture` stands: before the reset of the semaphore, at its wait, and
behind a wait that has succeeded. -/
inductive Caller where
  | idle
  | resetting
  | waiting
  | woken
  deriving DecidableEq, Repr

/-- A length is the frame whose size it is; `m_imgBuf` is the frame whose data it holds, or none
when it holds no whole one. `asked` counts the buffers that the encoder has, `captures` and
`frames` what there has been. The last two fields are the history of the latest call: the frame
of its capture whose length was stored first, and whether `cbEndOfFrame` has run to its end for
one. -/
structure Session where
  still : CameraStill
  timer : Bool
  capture : Bool
  m_takePictureSem : Semaphore
  m_imgBuf : Option Frame
  m_imgLength : Option Frame
  m_flength : Option Frame
  m_bufferStatus : BufferStatus
  sem_EventComplete : Nat
  asked : Nat
  thread : Nat → Capturing
  captures : Nat
  frames : Nat
  caller : Caller
  stored : Option Frame
  posted : Bool

inductive Event where
  | takePicture (o : Acquisition) (created : Bool)
  | reset
  | wake
  | timeout
  | finish
  | start (c : Nat)
  | fillThisBuffer (c : Nat) (ok : Bool)
  | fillBufferDone (capture : Nat) (b : Buffer)
  | eventHandler
  | eventComplete (c : Nat)
  | bufferStatus (c : Nat)
  | cbEndOfFrame (c : Nat)
  | post (c : Nat)
  | cbEndOfStream (c : Nat)
  | cbTimer (r : Release)

namespace Session

def constructed (still : CameraStill) : Session where
  still
  timer := false
  capture := false
  m_takePictureSem := ⟨0, 0⟩
  m_imgBuf := none
  m_imgLength := none
  m_flength := none
  m_bufferStatus := .NONE_S
  sem_EventComplete := 0
  asked := 0
  thread := fun _ => .absent
  captures := 0
  frames := 0
  caller := .idle
  stored := none
  posted := false

/-! ## Steps -/

def setThread (c : Nat) (pc : Capturing) (s : Session) : Session :=
  { s with thread := Function.update s.thread c pc }

/-- A length that is one of the latest capture. -/
def ownFrame (s : Session) (length : Option Frame) : Option Frame :=
  length.filter fun f => f.capture == s.captures

/-- `capture(true)` of the camera and `capture()` of the encoder. -/
def startCapture (created : Bool) (s : Session) : Session :=
  { s with
    capture := true
    thread := Function.update s.thread (s.captures + 1) (if created then .created else .absent)
    captures := s.captures + 1
    caller := .resetting
    stored := none
    posted := false }

/-- `takePicture` up to the mutex being left. -/
def takePicture (o : Acquisition) (created : Bool) (s : Session) : Session :=
  let (ready, still) := s.still.takePictureReady o
  let s := { s with timer := false, still }
  if !ready then s else s.startCapture created

/-- `FillBufferDone` with data of a capture. -/
def fillBufferDone (capture : Nat) (b : Buffer) (s : Session) : Session :=
  let s := { s with sem_EventComplete := s.sem_EventComplete + 1, asked := s.asked - 1 }
  match b with
  | .slice => { s with m_imgBuf := none }
  | .endOfFrame size =>
      let f : Frame := ⟨capture, s.frames, size⟩
      { s with
        m_imgBuf := some f
        m_flength := some f
        m_bufferStatus := .EOF_S
        frames := s.frames + 1 }
  | .endOfStream => { s with m_bufferStatus := .EOS_S }

/-- What a thread makes of `m_bufferStatus`, which nothing sets back behind a frame. -/
def afterWait (s : Session) : Capturing :=
  match s.m_bufferStatus with
  | .NONE_S => .filling
  | .EOF_S => .endOfFrame s.m_flength
  | .EOS_S => .endOfStream

/-- `cs->m_imgLength = size`. -/
def cbEndOfFrame (c : Nat) (length : Option Frame) (s : Session) : Session :=
  { s with
    m_imgLength := length
    stored := s.stored.or (s.ownFrame length) }.setThread c (.stored length)

/-- `cs->m_takePictureSem.post()`. -/
def post (c : Nat) (length : Option Frame) (s : Session) : Session :=
  { s with
    m_takePictureSem := s.m_takePictureSem.post
    posted := s.posted || (s.ownFrame length).isSome }.setThread c .filling

def step (s : Session) : Event → Option Session
  | .takePicture o created => if s.caller = .idle then some (s.takePicture o created) else none
  | .reset =>
      if s.caller = .resetting then
        some { s with m_takePictureSem := s.m_takePictureSem.reset, caller := .waiting }
      else none
  | .wake =>
      if s.caller = .waiting ∧ s.m_takePictureSem.value ≠ 0 then
        some { s with
          m_takePictureSem := ⟨s.m_takePictureSem.m_count, s.m_takePictureSem.value - 1⟩
          caller := .woken }
      else none
  | .timeout =>
      if s.caller = .waiting ∧ s.m_takePictureSem.value = 0 then some { s with caller := .idle }
      else none
  | .finish => if s.caller = .woken then some { s with caller := .idle } else none
  | .start c =>
      if s.thread c = .created then some ({ s with m_bufferStatus := .NONE_S }.setThread c .filling)
      else none
  | .fillThisBuffer c ok =>
      if s.thread c = .filling then
        some (if ok then { s with asked := s.asked + 1 }.setThread c .waiting
          else s.setThread c .ended)
      else none
  | .fillBufferDone capture b =>
      if s.asked ≠ 0 ∧ capture ≤ s.captures then some (s.fillBufferDone capture b) else none
  | .eventHandler => some { s with sem_EventComplete := s.sem_EventComplete + 1 }
  | .eventComplete c =>
      if s.thread c = .waiting ∧ s.sem_EventComplete ≠ 0 then
        some ({ s with sem_EventComplete := s.sem_EventComplete - 1 }.setThread c .filled)
      else none
  | .bufferStatus c => if s.thread c = .filled then some (s.setThread c s.afterWait) else none
  | .cbEndOfFrame c =>
      match s.thread c with
      | .endOfFrame length => some (s.cbEndOfFrame c length)
      | _ => none
  | .post c =>
      match s.thread c with
      | .stored length => some (s.post c length)
      | _ => none
  | .cbEndOfStream c =>
      if s.thread c = .endOfStream then
        some ({ s with capture := false, timer := true }.setThread c .ended)
      else none
  | .cbTimer r =>
      if s.timer then some { s with timer := false, still := s.still.returnResources r } else none

end Session

def sessions : Machine Session Event where
  step := Session.step

namespace Session

/-! ## The law and its condition -/

/-- The length and the image of a picture are those of one frame of its own capture, and no call
gives up a frame that `cbEndOfFrame` has run for. -/
def Law (s : Session) : Event → Prop
  | .finish => ∃ f, f.capture = s.captures ∧ s.m_imgBuf = some f ∧ s.m_imgLength = some f
  | .timeout => s.posted = false
  | _ => True

/-- The length of the call's frame is stored while the buffer holds that frame, and behind it no
other length. -/
def Storable (s : Session) (length : Option Frame) : Prop :=
  match s.stored with
  | none => ∀ f, s.ownFrame length = some f → s.m_imgBuf = some f
  | some f => length = some f

/-- While a call is running the length of its frame is stored while the buffer holds that frame;
behind that no data come and no other length is stored. Nothing is posted into its wait before
that, and nothing for its frame before the reset. -/
def Timely (s : Session) : Event → Prop
  | .fillBufferDone _ .slice | .fillBufferDone _ (.endOfFrame _) =>
      s.caller ≠ .idle → s.stored = none
  | .cbEndOfFrame c => s.caller ≠ .idle → ∀ length, s.thread c = .endOfFrame length →
      s.Storable length
  | .post c => (s.caller = .waiting → s.stored ≠ none) ∧
      (s.caller = .resetting → ∀ length, s.thread c = .stored length → s.ownFrame length = none)
  | _ => True

/-- A frame that is anywhere. -/
def Held (s : Session) (g : Frame) : Prop :=
  s.m_imgBuf = some g ∨ s.m_imgLength = some g ∨ s.m_flength = some g ∨
    ∃ c, s.thread c = .endOfFrame (some g) ∨ s.thread c = .stored (some g)

/-- A call in progress before the length of its frame is stored: it cannot leave its wait but by
the time, and no length is one of its capture. -/
structure Before (s : Session) : Prop where
  stored : s.stored = none
  posted : s.posted = false
  asleep : s.caller ≠ .woken
  value : s.caller = .waiting → s.m_takePictureSem.value = 0
  length : ∀ f, s.m_imgLength = some f → f.capture ≠ s.captures
  threads : ∀ c f, s.thread c = .stored (some f) → f.capture ≠ s.captures

/-- And behind that: the frame is there, and posted or about to be. -/
structure Behind (s : Session) (f : Frame) : Prop where
  stored : s.stored = some f
  own : f.capture = s.captures
  image : s.m_imgBuf = some f
  length : s.m_imgLength = some f
  begun : s.posted = true → s.caller ≠ .resetting
  value : s.posted = true → s.caller = .waiting → s.m_takePictureSem.value ≠ 0
  thread : s.posted = false → ∃ c, s.thread c = .stored (some f)

/-- What the timely steps preserve. -/
structure InTime (s : Session) : Prop where
  count : s.m_takePictureSem.m_count = 0
  known : ∀ g, s.Held g → g.capture ≤ s.captures ∧ g.number < s.frames
  running : s.caller ≠ .idle → s.Before ∨ ∃ f, s.Behind f

theorem inTime_constructed (still : CameraStill) : (constructed still).InTime where
  count := rfl
  known := by
    rintro g (h | h | h | ⟨c, h | h⟩) <;> cases h
  running := by
    intro h
    exact absurd rfl h

/-! ## What one step preserves -/

section Steps

variable {s t : Session} {c : Nat}

theorem ownFrame_eq_some {length : Option Frame} {f : Frame} :
    s.ownFrame length = some f ↔ length = some f ∧ f.capture = s.captures := by
  unfold ownFrame
  rw [Option.filter_eq_some_iff, beq_iff_eq]

theorem ownFrame_eq_none {length : Option Frame} (h : s.ownFrame length = none) {f : Frame}
    (hf : length = some f) : f.capture ≠ s.captures := by
  intro hown
  rw [ownFrame_eq_some.mpr ⟨hf, hown⟩] at h
  cases h

/-- A state between the calls. -/
theorem InTime.idle (h : s.InTime) : { s with caller := .idle }.InTime where
  count := h.count
  known := h.known
  running := by
    intro hrunning
    exact absurd rfl hrunning

theorem InTime.before (h : s.InTime) (hrunning : s.caller ≠ .idle) (hstored : s.stored = none) :
    s.Before := by
  cases h.running hrunning with
  | inl hbefore => exact hbefore
  | inr hbehind =>
      rcases hbehind with ⟨f, hf⟩
      rw [hf.stored] at hstored
      cases hstored

theorem InTime.behind (h : s.InTime) (hrunning : s.caller ≠ .idle) {f : Frame}
    (hstored : s.stored = some f) : s.Behind f := by
  cases h.running hrunning with
  | inl hbefore =>
      rw [hbefore.stored] at hstored
      cases hstored
  | inr hbehind =>
      rcases hbehind with ⟨g, hg⟩
      obtain rfl : g = f := Option.some.inj (hg.stored.symm.trans hstored)
      exact hg

theorem update_eq {thread : Nat → Capturing} {pc pc' : Capturing} {c' : Nat}
    (h : Function.update thread c pc c' = pc') :
    (c' = c ∧ pc = pc') ∨ (c' ≠ c ∧ thread c' = pc') := by
  by_cases hc : c' = c
  · subst hc
    rw [Function.update_self] at h
    exact .inl ⟨rfl, h⟩
  · rw [Function.update_of_ne hc] at h
    exact .inr ⟨hc, h⟩

/-- The frames that the threads hold when one of them has moved. -/
theorem threads_update {thread : Nat → Capturing} {pc : Capturing} {g : Frame}
    (h : ∃ c', Function.update thread c pc c' = .endOfFrame (some g) ∨
      Function.update thread c pc c' = .stored (some g)) :
    (pc = .endOfFrame (some g) ∨ pc = .stored (some g)) ∨
      ∃ c', thread c' = .endOfFrame (some g) ∨ thread c' = .stored (some g) := by
  rcases h with ⟨c', hg⟩
  rcases hg with hg | hg
  · cases update_eq hg with
    | inl hsame => exact .inl (.inl hsame.2)
    | inr hold => exact .inr ⟨c', .inl hold.2⟩
  · cases update_eq hg with
    | inl hsame => exact .inl (.inr hsame.2)
    | inr hold => exact .inr ⟨c', .inr hold.2⟩

/-- A thread that moves outside `cbEndOfFrame`, or into it with a frame that is known. -/
theorem InTime.setThread (h : s.InTime) {pc : Capturing} (hc : ∀ l, s.thread c ≠ .stored l)
    (hpc : ∀ l, pc ≠ .stored l) (hheld : ∀ g, pc = .endOfFrame (some g) → s.Held g) :
    (s.setThread c pc).InTime where
  count := h.count
  known := by
    rintro g (hg | hg | hg | hg)
    · exact h.known g (.inl hg)
    · exact h.known g (.inr (.inl hg))
    · exact h.known g (.inr (.inr (.inl hg)))
    · rcases threads_update hg with (hframe | hstored) | hold
      · exact h.known g (hheld g hframe)
      · exact absurd hstored (hpc _)
      · exact h.known g (.inr (.inr (.inr hold)))
  running := by
    intro hrunning
    cases h.running hrunning with
    | inl hbefore =>
        refine .inl ⟨hbefore.stored, hbefore.posted, hbefore.asleep, hbefore.value,
          hbefore.length, ?_⟩
        intro c' f hf
        cases update_eq hf with
        | inl hsame => exact absurd hsame.2 (hpc _)
        | inr hother => exact hbefore.threads c' f hother.2
    | inr hbehind =>
        rcases hbehind with ⟨f, hf⟩
        refine .inr ⟨f, hf.stored, hf.own, hf.image, hf.length, hf.begun, hf.value, ?_⟩
        intro hposted
        obtain ⟨c', hc'⟩ := hf.thread hposted
        refine ⟨c', ?_⟩
        show Function.update s.thread c pc c' = .stored (some f)
        rw [Function.update_of_ne ?_, hc']
        rintro rfl
        exact hc _ hc'

/-- What the invariant does not speak of. -/
theorem InTime.unmentioned (h : s.InTime) (still : CameraStill) (timer capture : Bool)
    (m_bufferStatus : BufferStatus) (sem_EventComplete asked : Nat) :
    { s with still, timer, capture, m_bufferStatus, sem_EventComplete, asked }.InTime where
  count := h.count
  known := h.known
  running := by
    intro hrunning
    cases h.running hrunning with
    | inl hb => exact .inl ⟨hb.stored, hb.posted, hb.asleep, hb.value, hb.length, hb.threads⟩
    | inr hbehind =>
        rcases hbehind with ⟨f, hf⟩
        exact .inr ⟨f, hf.stored, hf.own, hf.image, hf.length, hf.begun, hf.value, hf.thread⟩

theorem inTime_startCapture (h : s.InTime) (created : Bool) : (s.startCapture created).InTime where
  count := h.count
  known := by
    have hknown (g : Frame) (hg : s.Held g) :
        g.capture ≤ s.captures + 1 ∧ g.number < s.frames := by
      obtain ⟨hle, hlt⟩ := h.known g hg
      exact ⟨Nat.le_succ_of_le hle, hlt⟩
    rintro g (hg | hg | hg | hg)
    · exact hknown g (.inl hg)
    · exact hknown g (.inr (.inl hg))
    · exact hknown g (.inr (.inr (.inl hg)))
    · rcases threads_update hg with (hframe | hstored) | hold
      · cases created <;> cases hframe
      · cases created <;> cases hstored
      · exact hknown g (.inr (.inr (.inr hold)))
  running := by
    intro _
    have hold (g : Frame) (hg : s.Held g) : g.capture ≠ s.captures + 1 := by
      have hle := (h.known g hg).1
      omega
    refine .inl ⟨rfl, rfl, (by intro h; cases h), (by intro h; cases h), ?_, ?_⟩
    · intro f hf
      exact hold f (.inr (.inl hf))
    · intro c' f hf
      cases update_eq hf with
      | inl hsame => cases created <;> cases hsame.2
      | inr hother => exact hold f (.inr (.inr (.inr ⟨c', .inr hother.2⟩)))

theorem inTime_takePicture (h : s.InTime) (o : Acquisition) (created : Bool) :
    (s.takePicture o created).InTime := by
  have hready := h.unmentioned (s.still.takePictureReady o).2 false s.capture s.m_bufferStatus
    s.sem_EventComplete s.asked
  unfold takePicture
  dsimp only
  split
  · exact hready
  · exact inTime_startCapture hready created

theorem inTime_reset (h : s.InTime) (hresetting : s.caller = .resetting) :
    { s with m_takePictureSem := s.m_takePictureSem.reset, caller := .waiting }.InTime where
  count := h.count
  known := h.known
  running := by
    intro _
    cases h.running (by rw [hresetting]; decide) with
    | inl hb => exact .inl ⟨hb.stored, hb.posted, (by intro h; cases h), fun _ => h.count,
        hb.length, hb.threads⟩
    | inr hbehind =>
        rcases hbehind with ⟨f, hf⟩
        exact .inr ⟨f, hf.stored, hf.own, hf.image, hf.length, (by intro _ h; cases h),
          fun hposted => absurd hresetting (hf.begun hposted), hf.thread⟩

/-- Who gets the semaphore has the length of its frame. -/
theorem inTime_wake (h : s.InTime) (hwaiting : s.caller = .waiting)
    (hvalue : s.m_takePictureSem.value ≠ 0) :
    { s with
      m_takePictureSem := ⟨s.m_takePictureSem.m_count, s.m_takePictureSem.value - 1⟩
      caller := .woken }.InTime where
  count := h.count
  known := h.known
  running := by
    intro _
    cases h.running (by rw [hwaiting]; decide) with
    | inl hb => exact absurd (hb.value hwaiting) hvalue
    | inr hbehind =>
        rcases hbehind with ⟨f, hf⟩
        exact .inr ⟨f, hf.stored, hf.own, hf.image, hf.length, (by intro _ h; cases h),
          (by intro _ h; cases h), hf.thread⟩

/-- Data come before the length of the frame is stored, and may be overwritten by other data. -/
theorem inTime_data (h : s.InTime) (hstored : s.caller ≠ .idle → s.stored = none)
    (m_imgBuf m_flength : Option Frame) {frames : Nat} (hframes : s.frames ≤ frames)
    (himage : ∀ g, m_imgBuf = some g → s.Held g ∨ g.capture ≤ s.captures ∧ g.number < frames)
    (hflength : ∀ g, m_flength = some g → s.Held g ∨ g.capture ≤ s.captures ∧ g.number < frames) :
    { s with m_imgBuf, m_flength, frames }.InTime where
  count := h.count
  known := by
    have hknown (g : Frame) (hg : s.Held g) : g.capture ≤ s.captures ∧ g.number < frames := by
      obtain ⟨hle, hlt⟩ := h.known g hg
      exact ⟨hle, Nat.lt_of_lt_of_le hlt hframes⟩
    rintro g (hg | hg | hg | hg)
    · exact (himage g hg).elim (hknown g) id
    · exact hknown g (.inr (.inl hg))
    · exact (hflength g hg).elim (hknown g) id
    · exact hknown g (.inr (.inr (.inr hg)))
  running := by
    intro hrunning
    have hb := h.before hrunning (hstored hrunning)
    exact .inl ⟨hb.stored, hb.posted, hb.asleep, hb.value, hb.length, hb.threads⟩

theorem inTime_fillBufferDone (h : s.InTime) {capture : Nat} (hcapture : capture ≤ s.captures)
    {b : Buffer} (htimely : s.Timely (.fillBufferDone capture b)) :
    (s.fillBufferDone capture b).InTime := by
  cases b with
  | slice =>
      refine (inTime_data h htimely none s.m_flength (Nat.le_refl _) ?_ ?_).unmentioned s.still
        s.timer s.capture s.m_bufferStatus _ _
      · intro g hg
        cases hg
      · intro g hg
        exact .inl (.inr (.inr (.inl hg)))
  | endOfFrame size =>
      have hnew (g : Frame) (hg : some (⟨capture, s.frames, size⟩ : Frame) = some g) :
          s.Held g ∨ g.capture ≤ s.captures ∧ g.number < s.frames + 1 := by
        obtain rfl := Option.some.inj hg
        exact .inr ⟨hcapture, Nat.lt_succ_self _⟩
      exact (inTime_data h htimely _ _ (Nat.le_succ _) hnew hnew).unmentioned s.still s.timer
        s.capture .EOF_S _ _
  | endOfStream => exact h.unmentioned s.still s.timer s.capture .EOS_S _ _

/-- Before the length of its frame is stored a call gets it, or another one. -/
theorem before_cbEndOfFrame (h : s.Before) {length : Option Frame}
    (himage : ∀ f, s.ownFrame length = some f → s.m_imgBuf = some f) :
    (s.cbEndOfFrame c length).Before ∨ ∃ f, (s.cbEndOfFrame c length).Behind f := by
  have hstored : (s.cbEndOfFrame c length).stored = s.ownFrame length := by
    show s.stored.or (s.ownFrame length) = _
    rw [h.stored, Option.none_or]
  cases hown : s.ownFrame length with
  | none =>
      have hother (f : Frame) (hf : length = some f) : f.capture ≠ s.captures :=
        ownFrame_eq_none hown hf
      refine .inl ⟨hstored.trans hown, h.posted, h.asleep, h.value, hother, ?_⟩
      intro c' f hf
      cases update_eq hf with
      | inl hsame => exact hother f (Capturing.stored.inj hsame.2)
      | inr hold => exact h.threads c' f hold.2
  | some f =>
      obtain ⟨hlength, hcapture⟩ := ownFrame_eq_some.mp hown
      have hnot : s.posted ≠ true := by
        rw [h.posted]
        decide
      refine .inr ⟨f, hstored.trans hown, hcapture, himage f hown, hlength,
        fun hposted => absurd hposted hnot, fun hposted => absurd hposted hnot, fun _ => ⟨c, ?_⟩⟩
      show Function.update s.thread c (.stored length) c = _
      rw [Function.update_self, hlength]

/-- The length of the frame is stored once more. -/
theorem behind_cbEndOfFrame {f : Frame} (h : s.Behind f) :
    (s.cbEndOfFrame c (some f)).Behind f := by
  refine ⟨?_, h.own, h.image, rfl, h.begun, h.value, fun _ => ⟨c, Function.update_self _ _ _⟩⟩
  show s.stored.or _ = some f
  rw [h.stored, Option.some_or]

theorem inTime_cbEndOfFrame (h : s.InTime) {length : Option Frame}
    (hc : s.thread c = .endOfFrame length) (htimely : s.Timely (.cbEndOfFrame c)) :
    (s.cbEndOfFrame c length).InTime where
  count := h.count
  known := by
    have hlength (g : Frame) (hg : length = some g) :
        g.capture ≤ s.captures ∧ g.number < s.frames := by
      subst hg
      exact h.known g (.inr (.inr (.inr ⟨c, .inl hc⟩)))
    rintro g (hg | hg | hg | hg)
    · exact h.known g (.inl hg)
    · exact hlength g hg
    · exact h.known g (.inr (.inr (.inl hg)))
    · rcases threads_update hg with (hframe | hstored) | hold
      · cases hframe
      · exact hlength g (Capturing.stored.inj hstored)
      · exact h.known g (.inr (.inr (.inr hold)))
  running := by
    intro hrunning
    have hstore := htimely hrunning length hc
    unfold Storable at hstore
    cases h.running hrunning with
    | inl hb =>
        rw [hb.stored] at hstore
        exact before_cbEndOfFrame hb hstore
    | inr hbehind =>
        rcases hbehind with ⟨f, hf⟩
        rw [hf.stored] at hstore
        obtain rfl : length = some f := hstore
        exact .inr ⟨f, behind_cbEndOfFrame hf⟩

theorem inTime_post (h : s.InTime) {length : Option Frame} (hc : s.thread c = .stored length)
    (htimely : s.Timely (.post c)) : (s.post c length).InTime where
  count := h.count
  known := by
    rintro g (hg | hg | hg | hg)
    · exact h.known g (.inl hg)
    · exact h.known g (.inr (.inl hg))
    · exact h.known g (.inr (.inr (.inl hg)))
    · rcases threads_update hg with (hframe | hstored) | hold
      · cases hframe
      · cases hstored
      · exact h.known g (.inr (.inr (.inr hold)))
  running := by
    intro hrunning
    rcases htimely with ⟨hwait, hreset⟩
    cases h.running hrunning with
    | inl hb =>
        have hforeign : s.ownFrame length = none := by
          cases hown : s.ownFrame length with
          | none => rfl
          | some f =>
              obtain ⟨rfl, hcapture⟩ := ownFrame_eq_some.mp hown
              exact absurd hcapture (hb.threads c f hc)
        refine .inl ⟨hb.stored, ?_, hb.asleep, fun hw => absurd hb.stored (hwait hw), hb.length, ?_⟩
        · show (s.posted || (s.ownFrame length).isSome) = false
          rw [hb.posted, hforeign]
          rfl
        · intro c' f hf
          cases update_eq hf with
          | inl hsame => cases hsame.2
          | inr hold => exact hb.threads c' f hold.2
    | inr hbehind =>
        rcases hbehind with ⟨f, hf⟩
        refine .inr ⟨f, hf.stored, hf.own, hf.image, hf.length, ?_,
          fun _ _ => Nat.succ_ne_zero _, ?_⟩
        · intro hposted hresetting
          have hforeign := hreset hresetting length hc
          have hp : (s.posted || (s.ownFrame length).isSome) = true := hposted
          rw [hforeign, Option.isSome_none, Bool.or_false] at hp
          exact hf.begun hp hresetting
        · intro hposted
          have hp : (s.posted || (s.ownFrame length).isSome) = false := hposted
          obtain ⟨hp, hforeign⟩ := Bool.or_eq_false_iff.mp hp
          obtain ⟨c', hc'⟩ := hf.thread hp
          refine ⟨c', ?_⟩
          show Function.update s.thread c .filling c' = .stored (some f)
          rw [Function.update_of_ne ?_, hc']
          -- the thread that posts has another length
          rintro rfl
          rw [hc] at hc'
          have hown := ownFrame_eq_some.mpr ⟨Capturing.stored.inj hc', hf.own⟩
          rw [hown] at hforeign
          cases hforeign

theorem step_cbEndOfFrame (h : s.step (.cbEndOfFrame c) = some t) :
    ∃ length, s.thread c = .endOfFrame length ∧ t = s.cbEndOfFrame c length := by
  cases hc : s.thread c with
  | endOfFrame length =>
      simp only [step, hc] at h
      exact ⟨length, rfl, (Option.some.inj h).symm⟩
  | absent | created | filling | waiting | filled | stored _ | endOfStream | ended =>
      simp only [step, hc] at h
      cases h

theorem step_post (h : s.step (.post c) = some t) :
    ∃ length, s.thread c = .stored length ∧ t = s.post c length := by
  cases hc : s.thread c with
  | stored length =>
      simp only [step, hc] at h
      exact ⟨length, rfl, (Option.some.inj h).symm⟩
  | absent | created | filling | waiting | filled | endOfFrame _ | endOfStream | ended =>
      simp only [step, hc] at h
      cases h

/-- The step lemma: each event, where the thread it moves is not in `cbEndOfFrame`, moves that
thread and changes what the invariant does not speak of. -/
theorem inTime_step {e : Event} (h : s.InTime) (htimely : s.Timely e)
    (hstep : s.step e = some t) : t.InTime := by
  cases e with
  | takePicture o created =>
      obtain ⟨-, heq⟩ := Option.ite_none_right_eq_some.mp hstep
      obtain rfl := Option.some.inj heq
      exact inTime_takePicture h o created
  | reset =>
      obtain ⟨hresetting, heq⟩ := Option.ite_none_right_eq_some.mp hstep
      obtain rfl := Option.some.inj heq
      exact inTime_reset h hresetting
  | wake =>
      obtain ⟨⟨hwaiting, hvalue⟩, heq⟩ := Option.ite_none_right_eq_some.mp hstep
      obtain rfl := Option.some.inj heq
      exact inTime_wake h hwaiting hvalue
  | timeout | finish =>
      obtain ⟨-, heq⟩ := Option.ite_none_right_eq_some.mp hstep
      obtain rfl := Option.some.inj heq
      exact h.idle
  | start c =>
      obtain ⟨hc, heq⟩ := Option.ite_none_right_eq_some.mp hstep
      obtain rfl := Option.some.inj heq
      exact (h.setThread (c := c) (by simp [hc]) (by simp) (by simp)).unmentioned s.still s.timer
        s.capture .NONE_S s.sem_EventComplete s.asked
  | fillThisBuffer c ok =>
      obtain ⟨hc, heq⟩ := Option.ite_none_right_eq_some.mp hstep
      obtain rfl := Option.some.inj heq
      cases ok with
      | false => exact h.setThread (by simp [hc]) (by simp) (by simp)
      | true =>
          exact (h.setThread (c := c) (by simp [hc]) (by simp) (by simp)).unmentioned s.still
            s.timer s.capture s.m_bufferStatus s.sem_EventComplete _
  | fillBufferDone capture b =>
      obtain ⟨⟨-, hcapture⟩, heq⟩ := Option.ite_none_right_eq_some.mp hstep
      obtain rfl := Option.some.inj heq
      exact inTime_fillBufferDone h hcapture htimely
  | eventHandler =>
      obtain rfl := Option.some.inj hstep
      exact h.unmentioned s.still s.timer s.capture s.m_bufferStatus _ s.asked
  | eventComplete c =>
      obtain ⟨⟨hc, -⟩, heq⟩ := Option.ite_none_right_eq_some.mp hstep
      obtain rfl := Option.some.inj heq
      exact (h.setThread (c := c) (by simp [hc]) (by simp) (by simp)).unmentioned s.still s.timer
        s.capture s.m_bufferStatus _ s.asked
  | bufferStatus c =>
      obtain ⟨hc, heq⟩ := Option.ite_none_right_eq_some.mp hstep
      obtain rfl := Option.some.inj heq
      refine h.setThread (by simp [hc]) ?_ ?_
      · unfold afterWait
        cases s.m_bufferStatus <;> simp
      · intro g hg
        unfold afterWait at hg
        cases hs : s.m_bufferStatus with
        | NONE_S | EOS_S =>
            rw [hs] at hg
            cases hg
        | EOF_S =>
            rw [hs] at hg
            exact .inr (.inr (.inl (Capturing.endOfFrame.inj hg)))
  | cbEndOfFrame c =>
      obtain ⟨length, hc, rfl⟩ := step_cbEndOfFrame hstep
      exact inTime_cbEndOfFrame h hc htimely
  | post c =>
      obtain ⟨length, hc, rfl⟩ := step_post hstep
      exact inTime_post h hc htimely
  | cbEndOfStream c =>
      obtain ⟨hc, heq⟩ := Option.ite_none_right_eq_some.mp hstep
      obtain rfl := Option.some.inj heq
      exact (h.setThread (c := c) (by simp [hc]) (by simp) (by simp)).unmentioned s.still true false
        s.m_bufferStatus s.sem_EventComplete s.asked
  | cbTimer r =>
      obtain ⟨-, heq⟩ := Option.ite_none_right_eq_some.mp hstep
      obtain rfl := Option.some.inj heq
      exact h.unmentioned _ false s.capture s.m_bufferStatus s.sem_EventComplete s.asked

/-- A step of an invariant state keeps the law. -/
theorem law_of_inTime {e : Event} (h : s.InTime) (hstep : s.step e = some t) : s.Law e := by
  cases e with
  | finish =>
      obtain ⟨hwoken, -⟩ := Option.ite_none_right_eq_some.mp hstep
      cases h.running (by rw [hwoken]; decide) with
      | inl hb => exact absurd hwoken hb.asleep
      | inr hbehind =>
          rcases hbehind with ⟨f, hf⟩
          exact ⟨f, hf.own, hf.image, hf.length⟩
  | timeout =>
      obtain ⟨⟨hwaiting, hvalue⟩, -⟩ := Option.ite_none_right_eq_some.mp hstep
      cases h.running (by rw [hwaiting]; decide) with
      | inl hb => exact hb.posted
      | inr hbehind =>
          rcases hbehind with ⟨f, hf⟩
          show s.posted = false
          rw [Bool.eq_false_iff]
          intro hposted
          exact hf.value hposted hwaiting hvalue
  | _ => trivial

end Steps

end Session

end Acu.Camera
