import Noobia.Lib.Bytes
import Noobia.Lib.Trace

/-!
# The BLE client

Over BLE the peer sends a frame as one notification.  The radio stack's task hands it to
`handleNotification`, which puts it into `pendingFrame_` and trims it there; the main loop calls
`receive`, which takes it out again.  There is room for one frame and nothing is locked, so the
model takes the two functions apart into the steps between which the other task can run: the
callback assigns and trims, and `receive` tests, copies and clears.  What is meant by a connected
transport is that `maintainConnection` has nothing to do.  Both builds of the transport, with the
BLE library and with NimBLE, have the same text here.

`ble_delivers_iff` says which interleavings deliver every frame once and in order.
-/

namespace Noobia

open Bytes (trim)

/-- How far the main loop is in `receive`. -/
inductive Receiving
  | idle
  /-- There is something pending. -/
  | tested
  /-- `message` has been copied. -/
  | copied (message : Bytes)
  deriving DecidableEq

/-- `BleClientTransport`, with the two tasks that use it and what they have done. -/
structure BleClientTransport where
  pendingFrame : Bytes := []
  /-- Where the main loop is. -/
  receiving : Receiving := .idle
  /-- The callback is between its two lines. -/
  trimming : Bool := false
  notified : List Bytes := []
  returned : List Bytes := []
  deriving DecidableEq

/-- One of the tasks goes on. -/
inductive BleStep
  /-- The main loop, in `receive`. -/
  | loop
  /-- The radio, in `handleNotification`; if it is not in the middle of it, with this data. -/
  | radio (data : Bytes)
  deriving DecidableEq

namespace BleClientTransport

variable (t : BleClientTransport)

/-- One step. -/
def step : BleStep → BleClientTransport
  | .loop =>
    match t.receiving with
    | .idle => if t.pendingFrame.isEmpty then t else { t with receiving := .tested }
    | .tested => { t with receiving := .copied t.pendingFrame }
    | .copied message =>
      { t with pendingFrame := [], receiving := .idle, returned := t.returned ++ [message] }
  | .radio data =>
    if t.trimming then { t with pendingFrame := trim t.pendingFrame, trimming := false }
    else { t with pendingFrame := data, trimming := true, notified := t.notified ++ [data] }

/-- What `receive` should return: the notifications, trimmed, but not those that are blank. -/
def expected : List Bytes := (t.notified.map trim).filter (· ≠ [])

/-- The callback comes to its end, and the main loop finishes its call and makes another. -/
def settle : BleClientTransport :=
  (List.replicate 5 BleStep.loop).foldl step (if t.trimming then t.step (.radio []) else t)

/-- **Everything is delivered**: what has been returned is the first of what should be, and the next
calls, if nothing comes between, return the rest. -/
def Delivers : Prop :=
  t.returned <+: t.expected ∧ t.settle.returned = t.expected
  deriving Decidable

/-- The step does no harm in this state.  A notification does not when nothing is pending and
`receive` is not under way, or when it is blank and comes after the frame has been copied.
`receive` does not when it does not take a blank frame that has yet to be trimmed for one that is
not, nor copy a frame that has yet to be trimmed. -/
def Fine : BleStep → Prop
  | .loop =>
    match t.receiving with
    | .idle => t.pendingFrame = [] ∨ trim t.pendingFrame ≠ []
    | .tested => trim t.pendingFrame = t.pendingFrame
    | .copied _ => True
  | .radio data =>
    t.trimming = true ∨
    match t.receiving with
    | .idle => t.pendingFrame = []
    | .tested => False
    | .copied _ => trim data = []

/-- The frame in `pendingFrame_`, when it will have been trimmed. -/
def pending : Bytes :=
  if t.trimming then trim t.pendingFrame else t.pendingFrame

/-- The next calls return what the main loop has copied, or else what is pending; but once it has
tested, it returns even a blank frame. -/
theorem returned_settle :
    t.settle.returned = t.returned ++
      match t.receiving with
      | .idle => [t.pending].filter (· ≠ [])
      | .tested => [t.pending]
      | .copied message => [message] := by
  have hsettle (t : BleClientTransport) :
      ((List.replicate 5 BleStep.loop).foldl step t).returned = t.returned ++
        match t.receiving with
        | .idle => [t.pendingFrame].filter (· ≠ [])
        | .tested => [t.pendingFrame]
        | .copied message => [message] := by
    rcases t with ⟨pendingFrame, receiving, trimming, notified, returned⟩
    cases receiving with
    | idle =>
      by_cases h : pendingFrame = []
      · simp [List.replicate, step, h]
      · simp [List.replicate, step, h]
    | tested | copied message => simp [List.replicate, step]
  rw [settle, hsettle]
  cases h : t.trimming <;> simp [step, pending, h]

/-- What should be returned and has not been. -/
def outstanding : List Bytes :=
  match t.receiving with
  | .idle | .tested => [trim t.pendingFrame].filter (· ≠ [])
  | .copied message => [message]

/-- What holds as long as all steps are fine. -/
structure Kept : Prop where
  expected : t.expected = t.returned ++ t.outstanding
  trimmed : t.trimming = false → trim t.pendingFrame = t.pendingFrame
  tested : t.receiving = .tested → trim t.pendingFrame ≠ []

variable {t}

theorem Kept.pending_eq (h : t.Kept) : t.pending = trim t.pendingFrame := by
  rw [pending]
  split
  · rfl
  · rename_i htrimming
    exact (h.trimmed (by simpa using htrimming)).symm

theorem Kept.delivers (h : t.Kept) : t.Delivers := by
  refine ⟨?_, ?_⟩
  · rw [h.expected]
    exact List.prefix_append _ _
  rw [returned_settle, h.expected, h.pending_eq, outstanding]
  cases hreceiving : t.receiving with
  | idle | copied message => rfl
  | tested => simp [h.tested hreceiving]

/-- What should be returned after another notification. -/
theorem expected_notify (data : Bytes) (htrimming : t.trimming = false) :
    (t.step (.radio data)).expected = t.expected ++ [trim data].filter (· ≠ []) := by
  simp [step, htrimming, expected]

theorem Kept.step (h : t.Kept) {a : BleStep} (ha : t.Fine a) : (t.step a).Kept := by
  have hexpected := h.expected
  cases a with
  | loop =>
    cases hreceiving : t.receiving with
    | idle =>
      by_cases hempty : t.pendingFrame = []
      · have hstep : t.step .loop = t := by simp [BleClientTransport.step, hreceiving, hempty]
        rwa [hstep]
      have hstep : t.step .loop = { t with receiving := .tested } := by
        simp [BleClientTransport.step, hreceiving, hempty]
      rw [Fine, hreceiving] at ha
      rw [outstanding, hreceiving] at hexpected
      rw [hstep]
      exact ⟨hexpected, h.trimmed, fun _ ↦ ha.resolve_left hempty⟩
    | tested =>
      have hstep : t.step .loop = { t with receiving := .copied t.pendingFrame } := by
        simp [BleClientTransport.step, hreceiving]
      have htested := h.tested hreceiving
      rw [Fine, hreceiving] at ha
      rw [outstanding, hreceiving] at hexpected
      rw [hstep]
      refine ⟨hexpected.trans ?_, h.trimmed, nofun⟩
      dsimp only at ha
      rw [ha] at htested ⊢
      simp [outstanding, htested]
    | copied message =>
      have hstep : t.step .loop = { t with
          pendingFrame := [], receiving := .idle, returned := t.returned ++ [message] } := by
        simp [BleClientTransport.step, hreceiving]
      rw [outstanding, hreceiving] at hexpected
      rw [hstep]
      exact ⟨hexpected.trans (by simp [outstanding]), fun _ ↦ Bytes.trim_nil, nofun⟩
  | radio data =>
    cases htrimming : t.trimming with
    | true =>
      have hstep : t.step (.radio data) =
          { t with pendingFrame := trim t.pendingFrame, trimming := false } := by
        simp [BleClientTransport.step, htrimming]
      rw [hstep]
      refine ⟨hexpected.trans ?_, fun _ ↦ Bytes.trim_trim _, fun htested ↦ ?_⟩
      · cases hreceiving : t.receiving <;> simp [outstanding, hreceiving]
      · simpa using h.tested htested
    | false =>
      have hstep : t.step (.radio data) = { t with
          pendingFrame := data, trimming := true, notified := t.notified ++ [data] } := by
        simp [BleClientTransport.step, htrimming]
      have hnotify := expected_notify (t := t) data htrimming
      rw [Fine, htrimming] at ha
      have ha := ha.resolve_left (by decide)
      rw [hexpected] at hnotify
      refine ⟨hnotify.trans ?_, by simp [hstep], fun htested ↦ ?_⟩
      · cases hreceiving : t.receiving with
        | idle | copied message =>
          rw [hreceiving] at ha
          dsimp only at ha
          simp [hstep, outstanding, hreceiving, ha]
        | tested =>
          rw [hreceiving] at ha
          exact ha.elim
      · have hreceiving : t.receiving = .tested := by simpa [hstep] using htested
        rw [hreceiving] at ha
        exact ha.elim

/-- Any other step breaks it: something is lost, or something is returned that should not be. -/
theorem Kept.not_delivers (h : t.Kept) {a : BleStep} (ha : ¬ t.Fine a) : ¬ (t.step a).Delivers := by
  rintro ⟨-, hsettle⟩
  rw [returned_settle] at hsettle
  have hexpected := h.expected
  cases a with
  | loop =>
    cases hreceiving : t.receiving with
    | idle =>
      rw [Fine, hreceiving] at ha
      obtain ⟨hempty, hblank⟩ := not_or.mp ha
      have hstep : t.step .loop = { t with receiving := .tested } := by
        simp [BleClientTransport.step, hreceiving, hempty]
      have hsame : (t.step .loop).expected = t.expected := by rw [hstep]; rfl
      rw [hsame, hexpected, outstanding, hreceiving, hstep] at hsettle
      simp [not_not.mp hblank] at hsettle
    | tested =>
      have hstep : t.step .loop = { t with receiving := .copied t.pendingFrame } := by
        simp [BleClientTransport.step, hreceiving]
      have hsame : (t.step .loop).expected = t.expected := by rw [hstep]; rfl
      rw [Fine, hreceiving] at ha
      rw [hsame, hexpected, outstanding, hreceiving, hstep] at hsettle
      have htested := h.tested hreceiving
      simp [htested] at hsettle
      exact ha hsettle.symm
    | copied message =>
      rw [Fine, hreceiving] at ha
      exact ha trivial
  | radio data =>
    obtain ⟨htrimming, ha⟩ := not_or.mp ha
    have htrimming : t.trimming = false := by simpa using htrimming
    have hstep : t.step (.radio data) = { t with
        pendingFrame := data, trimming := true, notified := t.notified ++ [data] } := by
      simp [BleClientTransport.step, htrimming]
    have hpending : (t.step (.radio data)).pending = trim data := by rw [hstep]; rfl
    have htrimmed := h.trimmed htrimming
    rw [expected_notify data htrimming, hexpected, hpending, outstanding] at hsettle
    cases hreceiving : t.receiving with
    | idle =>
      rw [hreceiving] at ha
      simp [hstep, hreceiving, htrimmed] at ha hsettle
      exact ha hsettle
    | tested =>
      have htested := h.tested hreceiving
      rw [htrimmed] at htested
      by_cases hblank : trim data = []
      · simp [hstep, hreceiving, htrimmed, htested, hblank] at hsettle
      · simp [hstep, hreceiving, htrimmed, htested, hblank] at hsettle
    | copied message =>
      rw [hreceiving] at ha
      simp [hstep, hreceiving] at ha hsettle
      exact ha hsettle

/-- **Which interleavings deliver.**  From a connected transport with nothing pending, every
notification that is not blank is returned once and in order if and only if no step is taken that
does harm. -/
theorem ble_delivers_iff (steps : List BleStep) :
    Trace.Always step Delivers {} steps ↔ Trace.Throughout step Fine {} steps := by
  have hstart : Kept {} := ⟨rfl, fun _ ↦ Bytes.trim_nil, nofun⟩
  have hkeep (t : BleClientTransport) (a : BleStep) (h : Kept t) (ha : Fine t a) :
      Kept (t.step a) := h.step ha
  exact Trace.always_iff_throughout hkeep (fun _ h ↦ h.delivers)
    (fun _ _ h ha ↦ h.not_delivers ha) hstart

/-- **A frame is lost.**  Two notifications come before the main loop comes round, and `receive`
returns the second and has nothing after it. -/
theorem notification_lost :
    let t := ([.radio (Bytes.ofAscii "NRP/1 1 STOP"), .radio [],
        .radio (Bytes.ofAscii "NRP/1 2 PING"),
      .radio [], .loop, .loop, .loop] : List BleStep).foldl step {}
    t.expected = [Bytes.ofAscii "NRP/1 1 STOP", Bytes.ofAscii "NRP/1 2 PING"] ∧
      t.returned = [Bytes.ofAscii "NRP/1 2 PING"] ∧ t.settle = t ∧ ¬ t.Delivers := by
  decide

end BleClientTransport

end Noobia
