import Acu.Camera.TakePicture

/-!
# Late frames

Nothing less than the timely steps will do: behind any other step the call in progress, left
alone, hands out a wrong picture or gives up a frame that `cbEndOfFrame` has run for.
-/

namespace Acu.Camera

open Acu.Core

namespace Session

/-- The call in progress is left to itself: its steps, and those posts that come behind the stored
length of its frame and behind the reset. -/
def Alone (s : Session) : Event → Prop
  | .reset | .wake | .timeout | .finish => True
  | .post _ => s.stored ≠ none ∧ s.caller ≠ .resetting
  | _ => False

/-- Left alone the call in progress can break the law. -/
def Doomed (s : Session) : Prop :=
  ∃ es, sessions.AllSteps Alone s es ∧ ¬ sessions.AllSteps Law s es

section Doomed

variable {s t : Session}

/-! ## Calls that are lost -/

theorem Doomed.of_step {e : Event} (hstep : s.step e = some t) (halone : s.Alone e)
    (h : t.Doomed) : s.Doomed := by
  rcases h with ⟨es, hes, hbroken⟩
  exact ⟨e :: es, Machine.AllSteps.cons hstep halone hes, fun hlaw => hbroken (hlaw t hstep).2⟩

theorem doomed_of_law {e : Event} (hstep : s.step e = some t) (halone : s.Alone e)
    (hlaw : ¬ s.Law e) : s.Doomed :=
  ⟨[e], Machine.AllSteps.cons hstep halone trivial, fun h => hlaw (h t hstep).1⟩

theorem doomed_of_woken (hwoken : s.caller = .woken) (hpicture : ¬ s.Law .finish) : s.Doomed :=
  doomed_of_law (e := .finish) (if_pos hwoken) trivial hpicture

theorem doomed_of_value (hwaiting : s.caller = .waiting)
    (hvalue : s.m_takePictureSem.value ≠ 0) (hpicture : ¬ s.Law .finish) : s.Doomed :=
  Doomed.of_step (e := .wake) (if_pos ⟨hwaiting, hvalue⟩) trivial (doomed_of_woken rfl hpicture)

/-- A thread is about to post into the wait of the call. -/
theorem doomed_of_post {c : Nat} {length : Option Frame} (hwaiting : s.caller = .waiting)
    (hc : s.thread c = .stored length) (hstored : s.stored ≠ none) (hpicture : ¬ s.Law .finish) :
    s.Doomed := by
  have hstep : s.step (.post c) = some (s.post c length) := by simp only [step, hc]
  refine Doomed.of_step hstep ⟨hstored, by rw [hwaiting]; decide⟩ ?_
  exact doomed_of_value hwaiting (Nat.succ_ne_zero _) hpicture

/-- A thread is about to post, wherever the call stands. -/
theorem doomed_of_thread {c : Nat} {length : Option Frame} (hrunning : s.caller ≠ .idle)
    (hc : s.thread c = .stored length) (hstored : s.stored ≠ none) (hpicture : ¬ s.Law .finish) :
    s.Doomed := by
  cases hcaller : s.caller with
  | idle => exact absurd hcaller hrunning
  | resetting =>
      refine Doomed.of_step (e := .reset) (if_pos hcaller) trivial ?_
      exact doomed_of_post rfl hc hstored hpicture
  | waiting => exact doomed_of_post hcaller hc hstored hpicture
  | woken => exact doomed_of_woken hcaller hpicture

theorem waiting_or_woken {pc : Caller} (hidle : pc ≠ .idle) (hresetting : pc ≠ .resetting) :
    pc = .waiting ∨ pc = .woken := by
  cases pc with
  | idle => exact absurd rfl hidle
  | resetting => exact absurd rfl hresetting
  | waiting => exact .inl rfl
  | woken => exact .inr rfl

/-- Other data have come behind the frame. -/
theorem Behind.doomed {f : Frame} (h : s.Behind f) (hrunning : s.caller ≠ .idle)
    (m_imgBuf m_flength : Option Frame) (m_bufferStatus : BufferStatus)
    (sem_EventComplete asked frames : Nat) (himage : m_imgBuf ≠ some f) :
    { s with m_imgBuf, m_flength, m_bufferStatus, sem_EventComplete, asked, frames }.Doomed := by
  have hpicture :
      ¬ Law { s with m_imgBuf, m_flength, m_bufferStatus, sem_EventComplete, asked, frames }
        .finish := by
    intro h
    rcases h with ⟨g, -, hg, hlength⟩
    have hsame : f = g := Option.some.inj (h.length.symm.trans hlength)
    exact himage (hsame ▸ hg)
  cases hposted : s.posted with
  | false =>
      obtain ⟨c, hc⟩ := h.thread hposted
      refine doomed_of_thread hrunning hc ?_ hpicture
      show s.stored ≠ none
      rw [h.stored]
      intro hnone
      cases hnone
  | true =>
      cases waiting_or_woken hrunning (h.begun hposted) with
      | inl hwaiting => exact doomed_of_value hwaiting (h.value hposted hwaiting) hpicture
      | inr hwoken => exact doomed_of_woken hwoken hpicture

/-! ## The steps that lose a call -/

theorem doomed_fillBufferDone {capture : Nat} {b : Buffer} (h : s.InTime)
    (huntimely : ¬ s.Timely (.fillBufferDone capture b)) :
    (s.fillBufferDone capture b).Doomed := by
  cases b with
  | endOfStream => exact absurd trivial huntimely
  | slice =>
      obtain ⟨hrunning, hstored⟩ := Classical.not_imp.mp huntimely
      obtain ⟨f, hf⟩ := Option.ne_none_iff_exists'.mp hstored
      exact (h.behind hrunning hf).doomed hrunning none s.m_flength s.m_bufferStatus _ _ s.frames
        (by intro h; cases h)
  | endOfFrame size =>
      obtain ⟨hrunning, hstored⟩ := Classical.not_imp.mp huntimely
      obtain ⟨f, hf⟩ := Option.ne_none_iff_exists'.mp hstored
      have hbehind := h.behind hrunning hf
      refine hbehind.doomed hrunning _ _ .EOF_S _ _ _ ?_
      -- the number of the new frame is a new one
      intro hsame
      obtain rfl := Option.some.inj hsame
      exact Nat.lt_irrefl s.frames (h.known _ (.inl hbehind.image)).2

theorem doomed_cbEndOfFrame {c : Nat} {length : Option Frame} (h : s.InTime)
    (hc : s.thread c = .endOfFrame length) (huntimely : ¬ s.Timely (.cbEndOfFrame c)) :
    (s.cbEndOfFrame c length).Doomed := by
  obtain ⟨hrunning, hnot⟩ := Classical.not_imp.mp huntimely
  have hthread : (s.cbEndOfFrame c length).thread c = .stored length := by
    show Function.update s.thread c (.stored length) c = _
    rw [Function.update_self]
  have hbroken : ¬ s.Storable length := by
    intro hstore
    refine hnot fun length' hc' => ?_
    obtain rfl : length = length' := Capturing.endOfFrame.inj (hc.symm.trans hc')
    exact hstore
  unfold Storable at hbroken
  cases hstored : s.stored with
  | none =>
      rw [hstored] at hbroken
      obtain ⟨f, hf⟩ := not_forall.mp hbroken
      obtain ⟨hown, himage⟩ := Classical.not_imp.mp hf
      refine doomed_of_thread hrunning hthread ?_ ?_
      · show s.stored.or (s.ownFrame length) ≠ none
        rw [hstored, hown]
        intro hnone
        cases hnone
      · intro h
        rcases h with ⟨g, -, hg, hlength⟩
        obtain ⟨hf, -⟩ := ownFrame_eq_some.mp hown
        have hsame : g = f := Option.some.inj (Eq.trans (Eq.symm hlength) hf)
        exact himage (hsame ▸ hg)
  | some f =>
      rw [hstored] at hbroken
      refine doomed_of_thread hrunning hthread ?_ ?_
      · show s.stored.or (s.ownFrame length) ≠ none
        rw [hstored]
        intro hnone
        cases hnone
      · intro h
        rcases h with ⟨g, -, hg, hlength⟩
        have himage := (h.behind hrunning hstored).image
        have hsame : g = f := Option.some.inj (Eq.trans (Eq.symm hg) himage)
        exact hbroken (hsame ▸ hlength)

theorem doomed_post {c : Nat} {length : Option Frame} (h : s.InTime)
    (hc : s.thread c = .stored length) (huntimely : ¬ s.Timely (.post c)) :
    (s.post c length).Doomed := by
  by_cases hwait : s.caller = .waiting → s.stored ≠ none
  · -- the frame of the call is posted before the reset
    have hreset : ¬ (s.caller = .resetting →
        ∀ length, s.thread c = .stored length → s.ownFrame length = none) :=
      fun hreset => huntimely ⟨hwait, hreset⟩
    obtain ⟨hresetting, hnot⟩ := Classical.not_imp.mp hreset
    have hown : s.ownFrame length ≠ none := by
      intro hnone
      refine hnot fun length' hc' => ?_
      obtain rfl : length = length' := Capturing.stored.inj (hc.symm.trans hc')
      exact hnone
    refine Doomed.of_step (e := .reset) (if_pos hresetting) trivial
      (doomed_of_law (e := .timeout) (if_pos ⟨rfl, h.count⟩) trivial ?_)
    intro hlaw
    have hposted : (s.posted || (s.ownFrame length).isSome) = false := hlaw
    rw [Option.isSome_iff_ne_none.mpr hown, Bool.or_true] at hposted
    cases hposted
  · -- the call wakes before the length of its frame is stored
    obtain ⟨hwaiting, hstored⟩ := Classical.not_imp.mp hwait
    have hbefore := h.before (by rw [hwaiting]; decide) (not_not.mp hstored)
    refine doomed_of_value hwaiting (Nat.succ_ne_zero _) ?_
    intro h
    rcases h with ⟨g, hg, -, hlength⟩
    exact hbefore.length g hlength hg

/-- Behind a step that is not timely the call in progress is lost. -/
theorem doomed_of_untimely {e : Event} (h : s.InTime) (huntimely : ¬ s.Timely e)
    (hstep : s.step e = some t) : t.Doomed := by
  cases e with
  | fillBufferDone capture b =>
      obtain ⟨-, heq⟩ := Option.ite_none_right_eq_some.mp hstep
      obtain rfl := Option.some.inj heq
      exact doomed_fillBufferDone h huntimely
  | cbEndOfFrame c =>
      obtain ⟨length, hc, rfl⟩ := step_cbEndOfFrame hstep
      exact doomed_cbEndOfFrame h hc huntimely
  | post c =>
      obtain ⟨length, hc, rfl⟩ := step_post hstep
      exact doomed_post h hc huntimely
  | _ => exact absurd trivial huntimely

/-- The steps of the call alone are timely. -/
theorem timely_of_alone {e : Event} (halone : s.Alone e) : s.Timely e := by
  cases e with
  | reset | wake | timeout | finish => trivial
  | post c => exact ⟨fun _ => halone.1, fun hresetting => absurd hresetting halone.2⟩
  | _ => exact halone.elim

end Doomed

/-! ## Runs -/

/-- In the runs of timely steps, and in no others, every picture is one of its own capture and no
posted frame is given up, wherever the run is stopped and the call in progress left alone. -/
theorem timely_iff (still : CameraStill) (es : List Event) :
    sessions.AllSteps Timely (constructed still) es ↔
      ∀ pre s rest, pre <+: es → sessions.run (constructed still) pre = some s →
        sessions.AllSteps Alone s rest →
        sessions.AllSteps Law (constructed still) (pre ++ rest) := by
  refine Machine.allSteps_iff_left_alone (I := InTime) ?_ ?_ ?_ ?_ (inTime_constructed still) es
  · intro s e t h htimely hstep
    exact inTime_step h htimely hstep
  · intro s e t h _ hstep
    exact law_of_inTime h hstep
  · intro s e t _ halone _
    exact timely_of_alone halone
  · intro s e t h huntimely hstep
    exact doomed_of_untimely h huntimely hstep

/-! ## A frame too early and a frame too late -/

def ready : Acquisition where
  getHandle := true
  disableCapture := true
  disablePreview := true
  idle := true
  connectCapture := true
  connectPreview := true
  enable := fun _ => true
  useBuffer := true
  executeCamera := true
  executePreview := true
  executeEncoder := true

def atStart : Session :=
  constructed (CameraStill.constructed (fun _ => false) .Idle .Idle)

/-- The thread of a capture, from its buffer to the post. -/
def callback (c : Nat) : List Event :=
  [.fillBufferDone c (.endOfFrame 9000), .eventComplete c, .bufferStatus c, .cbEndOfFrame c,
    .post c]

/-- The frame is posted before the reset. -/
def early : List Event :=
  [.takePicture ready true, .start 1, .fillThisBuffer 1 true] ++ callback 1 ++ [.reset]

/-- The frame of the first call, which has timed out, is posted into the wait of the second. -/
def late : List Event :=
  [.takePicture ready true, .reset, .start 1, .fillThisBuffer 1 true, .timeout,
    .takePicture ready true, .reset] ++ callback 1 ++ [.wake]

theorem law_broken :
    ¬ sessions.AllSteps Law atStart (early ++ [.timeout]) ∧
      ¬ sessions.AllSteps Law atStart (late ++ [.finish]) := by
  constructor
  · intro h
    have hlaw := ((sessions.allSteps_append.mp h).2 _ rfl _ rfl).1
    cases hlaw
  · intro h
    obtain ⟨f, hown, himage, -⟩ := ((sessions.allSteps_append.mp h).2 _ rfl _ rfl).1
    cases himage
    cases hown

end Session

end Acu.Camera
