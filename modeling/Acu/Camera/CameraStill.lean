import Mathlib.Logic.Function.Basic
import Acu.Core.Machine

/-!
# The resources of the camera

`takePictureReady` and `returnResources` over the success and failure of the OpenMAX
calls they make. A command that is accepted has taken effect when its call returns; one
that fails has none. The calls that only set parameters change no resource.
-/

namespace Acu.Camera

open Acu.Core

inductive OMX_STATETYPE where
  | Loaded
  | Idle
  | Executing
  deriving DecidableEq, Repr

/-- The ports of the two tunnels, and the one the image leaves through. -/
inductive Port where
  | OUTPUT_CAPTURE
  | OUTPUT_PREVIEW
  | PREVIEW_INPUT
  | ENCODER_INPUT
  | ENCODER_OUTPUT
  deriving DecidableEq, Repr

/-- The states that the code gives to `m_state`. -/
inductive State where
  | READY_S
  | IREADY_S
  deriving DecidableEq, Repr

/-- `camera` is the object behind `m_camera_component`, with its state; `lost` counts the camera
objects that no pointer leads to any more. -/
structure CameraStill where
  m_state : State
  camera : Option OMX_STATETYPE
  lost : Nat
  captureTunnel : Bool
  previewTunnel : Bool
  enabled : Port → Bool
  preview : OMX_STATETYPE
  encoder : OMX_STATETYPE
  m_output_buffer : Bool

/-- Which calls of an acquisition succeed: the handle of a new camera, the disabling of its two
ports by the constructor, its change to idle, the tunnels, the enabling of each port, the buffer
of the last one, and the three changes to executing. -/
structure Acquisition where
  getHandle : Bool
  disableCapture : Bool
  disablePreview : Bool
  idle : Bool
  connectCapture : Bool
  connectPreview : Bool
  enable : Port → Bool
  useBuffer : Bool
  executeCamera : Bool
  executePreview : Bool
  executeEncoder : Bool

/-- Which calls of a release succeed. -/
structure Release where
  idleCamera : Bool
  idleEncoder : Bool
  idlePreview : Bool
  disable : Port → Bool
  freeBuffer : Bool
  loadedCamera : Bool
  freeHandle : Bool

namespace CameraStill

/-! ## The calls -/

/-- After the constructor, whose own calls may have failed too. -/
def constructed (enabled : Port → Bool) (preview encoder : OMX_STATETYPE) : CameraStill where
  m_state := .READY_S
  camera := none
  lost := 0
  captureTunnel := false
  previewTunnel := false
  enabled
  preview
  encoder
  m_output_buffer := false

/-- `new OMXILCameraComponent`; the pointer to an older camera is overwritten. -/
def newCamera (o : Acquisition) (s : CameraStill) : CameraStill :=
  { s with
    camera := some .Loaded
    lost := if s.camera.isSome then s.lost + 1 else s.lost
    captureTunnel := false
    previewTunnel := false
    enabled := Function.update (Function.update s.enabled .OUTPUT_CAPTURE (!o.disableCapture))
      .OUTPUT_PREVIEW (!o.disablePreview) }

/-- `change_state` of each component; the result is not looked at. -/
def cameraState (ok : Bool) (state : OMX_STATETYPE) (s : CameraStill) : CameraStill :=
  { s with camera := if ok then some state else s.camera }

def previewState (ok : Bool) (state : OMX_STATETYPE) (s : CameraStill) : CameraStill :=
  { s with preview := if ok then state else s.preview }

def encoderState (ok : Bool) (state : OMX_STATETYPE) (s : CameraStill) : CameraStill :=
  { s with encoder := if ok then state else s.encoder }

/-- `OMXILComponent::enable_port` and `disable_port`. -/
def enable_port (ok : Bool) (port : Port) (s : CameraStill) : CameraStill :=
  { s with enabled := if ok then Function.update s.enabled port true else s.enabled }

def disable_port (ok : Bool) (port : Port) (s : CameraStill) : CameraStill :=
  { s with enabled := if ok then Function.update s.enabled port false else s.enabled }

/-- `OMXILEncoderComponent::enable_port(OUTPUT_PORT_NUM)`: the port is enabled when it has got its
buffer. -/
def enable_output (ok useBuffer : Bool) (s : CameraStill) : CameraStill :=
  { s.enable_port (ok && useBuffer) .ENCODER_OUTPUT with
    m_output_buffer := s.m_output_buffer || ok && useBuffer }

/-- `OMXILEncoderComponent::disable_port(OUTPUT_PORT_NUM)`. -/
def disable_output (freeBuffer ok : Bool) (s : CameraStill) : CameraStill :=
  if s.m_output_buffer && !freeBuffer then s
  else { s with m_output_buffer := false }.disable_port ok .ENCODER_OUTPUT

/-- `delete m_camera_component`; its tunnels go with the handle. -/
def deleteCamera (freeHandle : Bool) (s : CameraStill) : CameraStill :=
  { s with
    camera := none
    captureTunnel := s.captureTunnel && !freeHandle
    previewTunnel := s.previewTunnel && !freeHandle }

/-- What follows the two tunnels. -/
def enableAndExecute (o : Acquisition) (s : CameraStill) : CameraStill :=
  let s := s.enable_port (o.enable .OUTPUT_CAPTURE) .OUTPUT_CAPTURE
  let s := s.enable_port (o.enable .OUTPUT_PREVIEW) .OUTPUT_PREVIEW
  let s := s.enable_port (o.enable .PREVIEW_INPUT) .PREVIEW_INPUT
  let s := s.enable_port (o.enable .ENCODER_INPUT) .ENCODER_INPUT
  let s := s.enable_output (o.enable .ENCODER_OUTPUT) o.useBuffer
  let s := s.cameraState o.executeCamera .Executing
  let s := s.previewState o.executePreview .Executing
  s.encoderState o.executeEncoder .Executing

def takePictureReady (o : Acquisition) (s : CameraStill) : Bool × CameraStill :=
  if s.m_state = .IREADY_S then (true, s)
  else if !o.getHandle then (false, s) -- `EXCEPTION_CONSTRUCT`
  else
    let s := (s.newCamera o).cameraState o.idle .Idle
    if !o.connectCapture then (false, s)
    else
      let s := { s with captureTunnel := true }
      if !o.connectPreview then (false, s)
      else
        let s := { s with previewTunnel := true }.enableAndExecute o
        (true, { s with m_state := .IREADY_S })

def returnResources (o : Release) (s : CameraStill) : CameraStill :=
  if s.m_state = .READY_S then s
  else
    let s := s.cameraState o.idleCamera .Idle
    let s := s.encoderState o.idleEncoder .Idle
    let s := s.previewState o.idlePreview .Idle
    let s := s.disable_port (o.disable .OUTPUT_CAPTURE) .OUTPUT_CAPTURE
    let s := s.disable_port (o.disable .OUTPUT_PREVIEW) .OUTPUT_PREVIEW
    let s := s.disable_port (o.disable .PREVIEW_INPUT) .PREVIEW_INPUT
    let s := s.disable_port (o.disable .ENCODER_INPUT) .ENCODER_INPUT
    let s := s.disable_output o.freeBuffer (o.disable .ENCODER_OUTPUT)
    let s := s.cameraState o.loadedCamera .Loaded
    { s.deleteCamera o.freeHandle with m_state := .READY_S }

end CameraStill

/-- The calls of a run, under the mutex one after the other. -/
inductive CameraCall where
  | takePicture (o : Acquisition)
  | returnResources (o : Release)

def cameraCalls : Machine CameraStill CameraCall where
  step s
    | .takePicture o => some (s.takePictureReady o).2
    | .returnResources o => some (s.returnResources o)

/-! ## The law -/

namespace CameraStill

/-- Everything a picture needs, and no more. -/
structure Acquired (s : CameraStill) : Prop where
  camera : s.camera = some .Executing
  single : s.lost = 0
  captureTunnel : s.captureTunnel = true
  previewTunnel : s.previewTunnel = true
  ports : ∀ p, s.enabled p = true
  preview : s.preview = .Executing
  encoder : s.encoder = .Executing

/-- A call leaves `m_state` telling whether everything is acquired, and changes nothing when it
fails. -/
def CallLaw (s : CameraStill) : CameraCall → Prop
  | .takePicture o =>
      ((s.takePictureReady o).2.m_state = .IREADY_S ↔ (s.takePictureReady o).2.Acquired) ∧
        ((s.takePictureReady o).1 = false → (s.takePictureReady o).2 = s)
  | .returnResources o =>
      (s.returnResources o).m_state = .IREADY_S ↔ (s.returnResources o).Acquired

/-- A port is enabled by the acquisition, or was left enabled. -/
def PortComes (o : Acquisition) (s : CameraStill) : Port → Prop
  | .OUTPUT_CAPTURE => o.enable .OUTPUT_CAPTURE = true ∨ o.disableCapture = false
  | .OUTPUT_PREVIEW => o.enable .OUTPUT_PREVIEW = true ∨ o.disablePreview = false
  | .ENCODER_OUTPUT =>
      o.enable .ENCODER_OUTPUT = true ∧ o.useBuffer = true ∨ s.enabled .ENCODER_OUTPUT = true
  | p => o.enable p = true ∨ s.enabled p = true

/-- Once a new camera has its handle both tunnels come, and so do the ports and the three
executing states that are not there already. -/
structure Completes (o : Acquisition) (s : CameraStill) : Prop where
  connectCapture : o.connectCapture = true
  connectPreview : o.connectPreview = true
  ports : ∀ p, PortComes o s p
  executeCamera : o.executeCamera = true
  preview : o.executePreview = true ∨ s.preview = .Executing
  encoder : o.executeEncoder = true ∨ s.encoder = .Executing

/-- The condition of a call. -/
def CallSafe (s : CameraStill) : CameraCall → Prop
  | .takePicture o => s.m_state = .READY_S → o.getHandle = true → Completes o s
  | .returnResources _ => True

/-- What the calls that keep the law preserve. -/
structure Balanced (s : CameraStill) : Prop where
  acquired : s.m_state = .IREADY_S ↔ s.Acquired
  released : s.m_state = .READY_S → s.camera = none ∧ s.lost = 0

theorem not_acquired_of_camera {s : CameraStill} (h : s.camera = none) : ¬ s.Acquired := by
  intro hacq
  rw [hacq.camera] at h
  cases h

/-- A state without a camera is balanced when it is `READY_S`. -/
theorem balanced_of_released {s : CameraStill} (hstate : s.m_state = .READY_S)
    (hcamera : s.camera = none) (hlost : s.lost = 0) : s.Balanced := by
  refine ⟨?_, fun _ => ⟨hcamera, hlost⟩⟩
  constructor
  · intro h
    rw [hstate] at h
    cases h
  · intro hacq
    exact absurd hacq (not_acquired_of_camera hcamera)

theorem balanced_constructed (enabled : Port → Bool) (preview encoder : OMX_STATETYPE) :
    (constructed enabled preview encoder).Balanced :=
  balanced_of_released rfl rfl rfl

/-- In `IREADY_S` the law alone is the invariant. -/
theorem balanced_of_ready {s : CameraStill} (hstate : s.m_state = .IREADY_S)
    (hacq : s.Acquired) : s.Balanced := by
  refine ⟨⟨fun _ => hacq, fun _ => hstate⟩, ?_⟩
  intro h
  rw [hstate] at h
  cases h

/-! ## One call -/

section Calls

variable {o : Acquisition} {s : CameraStill}

theorem enable_port_enabled (ok : Bool) (port p : Port) :
    (s.enable_port ok port).enabled p = (s.enabled p || ok && p == port) := by
  unfold enable_port
  cases ok with
  | false => simp
  | true =>
      by_cases hp : p = port
      · simp [hp]
      · simp [hp]

/-- The ports that are enabled after the tunnels. -/
theorem enableAndExecute_enabled (p : Port) :
    (s.enableAndExecute o).enabled p = true ↔
      (o.enable p = true ∧ (p = .ENCODER_OUTPUT → o.useBuffer = true)) ∨ s.enabled p = true := by
  have hports : (s.enableAndExecute o).enabled p =
      (s.enabled p || o.enable .OUTPUT_CAPTURE && p == .OUTPUT_CAPTURE ||
        o.enable .OUTPUT_PREVIEW && p == .OUTPUT_PREVIEW ||
        o.enable .PREVIEW_INPUT && p == .PREVIEW_INPUT ||
        o.enable .ENCODER_INPUT && p == .ENCODER_INPUT ||
        (o.enable .ENCODER_OUTPUT && o.useBuffer) && p == .ENCODER_OUTPUT) := by
    simp only [enableAndExecute, encoderState, previewState, cameraState, enable_output,
      enable_port_enabled]
  rw [hports]
  cases p <;> simp [or_comm]

/-- The state in which the tunnels are connected. -/
def tunnelled (o : Acquisition) (s : CameraStill) : CameraStill :=
  { (s.newCamera o).cameraState o.idle .Idle with captureTunnel := true, previewTunnel := true }

theorem tunnelled_enabled (p : Port) :
    (o.enable p = true ∧ (p = .ENCODER_OUTPUT → o.useBuffer = true) ∨
      (s.tunnelled o).enabled p = true) ↔ PortComes o s p := by
  have hports : (s.tunnelled o).enabled =
      Function.update (Function.update s.enabled .OUTPUT_CAPTURE (!o.disableCapture))
        .OUTPUT_PREVIEW (!o.disablePreview) := rfl
  rw [hports]
  cases p <;> simp [PortComes, Function.update]

/-- The camera that a call makes, whatever becomes of it. -/
theorem newCamera_camera : ((s.newCamera o).cameraState o.idle .Idle).camera.isSome = true := by
  show (if o.idle then some OMX_STATETYPE.Idle else some .Loaded).isSome = true
  cases o.idle <;> rfl

/-- A component that is told to execute. -/
theorem executing_iff (ok : Bool) (state : OMX_STATETYPE) :
    (if ok then .Executing else state) = OMX_STATETYPE.Executing ↔
      ok = true ∨ state = .Executing := by
  cases ok <;> simp

/-- A finished acquisition is complete under its condition. -/
theorem acquired_iff (hcamera : s.camera = none) (hlost : s.lost = 0) :
    Acquired { (s.tunnelled o).enableAndExecute o with m_state := .IREADY_S } ↔
      (∀ p, PortComes o s p) ∧ o.executeCamera = true ∧
        (o.executePreview = true ∨ s.preview = .Executing) ∧
        (o.executeEncoder = true ∨ s.encoder = .Executing) := by
  have hports : (∀ p, ((s.tunnelled o).enableAndExecute o).enabled p = true) ↔
      ∀ p, PortComes o s p := by
    simp only [enableAndExecute_enabled, tunnelled_enabled]
  have hexecuting : ((s.tunnelled o).enableAndExecute o).camera = some .Executing ↔
      o.executeCamera = true := by
    show (if o.executeCamera then some OMX_STATETYPE.Executing
      else (if o.idle then some .Idle else some .Loaded)) = _ ↔ _
    cases o.executeCamera <;> cases o.idle <;> simp
  have hsingle : ((s.tunnelled o).enableAndExecute o).lost = 0 := by
    show (if s.camera.isSome then s.lost + 1 else s.lost) = 0
    rw [hcamera]
    exact hlost
  have hpreview : ((s.tunnelled o).enableAndExecute o).preview = .Executing ↔
      o.executePreview = true ∨ s.preview = .Executing := executing_iff _ _
  have hencoder : ((s.tunnelled o).enableAndExecute o).encoder = .Executing ↔
      o.executeEncoder = true ∨ s.encoder = .Executing := executing_iff _ _
  constructor
  · intro h
    exact ⟨hports.mp h.ports, hexecuting.mp h.camera, hpreview.mp h.preview,
      hencoder.mp h.encoder⟩
  · intro h
    rcases h with ⟨hp, hc, hprev, henc⟩
    exact {
      camera := hexecuting.mpr hc
      single := hsingle
      captureTunnel := rfl
      previewTunnel := rfl
      ports := hports.mpr hp
      preview := hpreview.mpr hprev
      encoder := hencoder.mpr henc }

theorem takePictureReady_ready (h : s.m_state = .IREADY_S) : s.takePictureReady o = (true, s) := by
  unfold takePictureReady
  rw [if_pos h]

theorem takePictureReady_throws (h : s.m_state = .READY_S) (hget : o.getHandle = false) :
    s.takePictureReady o = (false, s) := by
  unfold takePictureReady
  rw [h, hget]
  rfl

/-- A tunnel that cannot be set up leaves the new camera behind. -/
theorem takePictureReady_fails (h : s.m_state = .READY_S) (hget : o.getHandle = true)
    (htunnels : ¬ (o.connectCapture = true ∧ o.connectPreview = true)) :
    (s.takePictureReady o).1 = false ∧ (s.takePictureReady o).2.camera.isSome = true := by
  unfold takePictureReady
  rw [h, hget]
  cases hcapture : o.connectCapture with
  | false => exact ⟨rfl, newCamera_camera⟩
  | true =>
      cases hpreview : o.connectPreview with
      | false => exact ⟨rfl, newCamera_camera⟩
      | true => exact absurd ⟨hcapture, hpreview⟩ htunnels

theorem takePictureReady_succeeds (h : s.m_state = .READY_S) (hget : o.getHandle = true)
    (hcapture : o.connectCapture = true) (hpreview : o.connectPreview = true) :
    s.takePictureReady o =
      (true, { (s.tunnelled o).enableAndExecute o with m_state := .IREADY_S }) := by
  unfold takePictureReady
  rw [h, hget, hcapture, hpreview]
  rfl

theorem returnResources_ready (r : Release) (h : s.m_state = .READY_S) :
    s.returnResources r = s := by
  unfold returnResources
  rw [if_pos h]

/-- After a release there is no camera, and none is lost. -/
theorem returnResources_released (r : Release) (h : s.m_state = .IREADY_S) :
    (s.returnResources r).m_state = .READY_S ∧ (s.returnResources r).camera = none ∧
      (s.returnResources r).lost = s.lost := by
  have hdisable (s' : CameraStill) (freeBuffer ok : Bool) :
      (s'.disable_output freeBuffer ok).lost = s'.lost := by
    unfold disable_output
    split <;> rfl
  unfold returnResources
  rw [if_neg (by rw [h]; decide)]
  exact ⟨rfl, rfl, hdisable _ _ _⟩

end Calls

/-! ## Every call, and every run -/

/-- The law of an acquisition is its condition. -/
theorem takePicture_law_iff {s : CameraStill} (hs : s.Balanced) (o : Acquisition) :
    s.CallLaw (.takePicture o) ↔ s.CallSafe (.takePicture o) := by
  cases hstate : s.m_state with
  | IREADY_S =>
      refine iff_of_true ?_ ?_
      · show (_ ↔ _) ∧ _
        rw [takePictureReady_ready hstate]
        exact ⟨hs.acquired, fun _ => rfl⟩
      · intro hready
        rw [hstate] at hready
        cases hready
  | READY_S =>
      obtain ⟨hcamera, hlost⟩ := hs.released hstate
      by_cases hget : o.getHandle = true
      · by_cases htunnels : o.connectCapture = true ∧ o.connectPreview = true
        · have hcall := takePictureReady_succeeds hstate hget htunnels.1 htunnels.2
          have hacq := acquired_iff (o := o) hcamera hlost
          constructor
          · rintro ⟨hlaw, -⟩ - -
            rw [hcall] at hlaw
            obtain ⟨hports, hexec, hpreview, hencoder⟩ := hacq.mp (hlaw.mp rfl)
            exact ⟨htunnels.1, htunnels.2, hports, hexec, hpreview, hencoder⟩
          · intro hsafe
            have hcompletes := hsafe hstate hget
            show (_ ↔ _) ∧ _
            rw [hcall]
            refine ⟨⟨fun _ => ?_, fun _ => rfl⟩, by intro h; cases h⟩
            exact hacq.mpr ⟨hcompletes.ports, hcompletes.executeCamera, hcompletes.preview,
              hcompletes.encoder⟩
        · refine iff_of_false ?_ ?_
          · -- the camera that is left makes the state another one
            intro h
            rcases h with ⟨-, hsame⟩
            obtain ⟨hfalse, hleft⟩ := takePictureReady_fails hstate hget htunnels
            rw [hsame hfalse, hcamera] at hleft
            cases hleft
          · intro hsafe
            have hcompletes := hsafe hstate hget
            exact htunnels ⟨hcompletes.connectCapture, hcompletes.connectPreview⟩
      · refine iff_of_true ?_ ?_
        · show (_ ↔ _) ∧ _
          rw [takePictureReady_throws hstate (Bool.eq_false_iff.mpr hget)]
          exact ⟨hs.acquired, fun _ => rfl⟩
        · intro _ hget'
          exact absurd hget' hget

theorem returnResources_balanced {s : CameraStill} (hs : s.Balanced) (r : Release) :
    (s.returnResources r).Balanced := by
  cases hstate : s.m_state with
  | READY_S =>
      rw [returnResources_ready r hstate]
      exact hs
  | IREADY_S =>
      obtain ⟨hready, hcamera, hlost⟩ := returnResources_released r hstate
      refine balanced_of_released hready hcamera ?_
      rw [hlost]
      exact (hs.acquired.mp hstate).single

theorem takePicture_balanced {s : CameraStill} (hs : s.Balanced) {o : Acquisition}
    (hlaw : s.CallLaw (.takePicture o)) : (s.takePictureReady o).2.Balanced := by
  rcases hlaw with ⟨hacq, hsame⟩
  cases hresult : (s.takePictureReady o).1 with
  | false =>
      rw [hsame hresult]
      exact hs
  | true =>
      have hready : (s.takePictureReady o).2.m_state = .IREADY_S := by
        cases hstate : s.m_state with
        | IREADY_S =>
            rw [takePictureReady_ready hstate]
            exact hstate
        | READY_S =>
            by_cases hget : o.getHandle = true
            · by_cases htunnels : o.connectCapture = true ∧ o.connectPreview = true
              · rw [takePictureReady_succeeds hstate hget htunnels.1 htunnels.2]
              · rw [(takePictureReady_fails hstate hget htunnels).1] at hresult
                cases hresult
            · rw [takePictureReady_throws hstate (Bool.eq_false_iff.mpr hget)] at hresult
              cases hresult
      exact balanced_of_ready hready (hacq.mp hready)

theorem callLaw_iff {s : CameraStill} (hs : s.Balanced) (call : CameraCall) :
    s.CallLaw call ↔ s.CallSafe call := by
  cases call with
  | takePicture o => exact takePicture_law_iff hs o
  | returnResources r => exact iff_of_true (returnResources_balanced hs r).acquired trivial

theorem balanced_step {s t : CameraStill} {call : CameraCall} (hs : s.Balanced)
    (hlaw : s.CallLaw call) (hstep : cameraCalls.step s call = some t) : t.Balanced := by
  cases call with
  | takePicture o =>
      obtain rfl : (s.takePictureReady o).2 = t := Option.some.inj hstep
      exact takePicture_balanced hs hlaw
  | returnResources r =>
      obtain rfl : s.returnResources r = t := Option.some.inj hstep
      exact returnResources_balanced hs r

/-- The runs that keep the law are those in which no acquisition stops half way. -/
theorem calls_acquired_iff (enabled : Port → Bool) (preview encoder : OMX_STATETYPE)
    (calls : List CameraCall) :
    cameraCalls.AllSteps CallLaw (constructed enabled preview encoder) calls ↔
      cameraCalls.AllSteps CallSafe (constructed enabled preview encoder) calls :=
  Machine.allSteps_congr (fun _ _ _ hs hlaw hstep => balanced_step hs hlaw hstep)
    (fun _ call _ hs _ => callLaw_iff hs call) (balanced_constructed enabled preview encoder) calls

/-- Every call succeeds, but the second tunnel cannot be set up. -/
def noPreviewTunnel : Acquisition where
  getHandle := true
  disableCapture := true
  disablePreview := true
  idle := true
  connectCapture := true
  connectPreview := false
  enable := fun _ => true
  useBuffer := true
  executeCamera := true
  executePreview := true
  executeEncoder := true

/-- The call fails, and its camera stays. -/
theorem failed_call_keeps_camera :
    ¬ cameraCalls.AllSteps CallLaw (constructed (fun _ => false) .Idle .Idle)
      [.takePicture noPreviewTunnel] := by
  intro h
  obtain ⟨⟨-, hsame⟩, -⟩ := h _ rfl
  have hcamera := congrArg CameraStill.camera (hsame rfl)
  cases hcamera

end CameraStill

end Acu.Camera
