import Noobia.Lib.Trace
import Noobia.Sequence.History
import Noobia.Thread.Change

/-!
# Readings before and after a sequence

A light that a sequence switches on is no change the photoresistor's thread should report.  So the
thread does not read its source while a channel it is told to pause for is busy, and the first
reading after that is only a new baseline.  But it looks at the channels only when it takes a step.
A sequence that starts and ends between two steps goes unnoticed, and the second step compares its
reading with one from before the sequence: `blink_is_reported` is such a run.

`pauses_isolate` says that this is the only way in which it happens.  The operations carried out on
the sequencer between two readings are recorded for that, as in `Noobia.Sequence.History`.
-/

namespace Noobia

open List

variable {W : Type}

/-! ## Activity -/

/-- One of the channels in the mask is busy. -/
def Sequencer.BusyIn (mask : Nat) (s : Sequencer) : Prop :=
  ∃ slot : Slot, s.channelBusy slot = true ∧ mask.testBit slot = true
  deriving Decidable

/-- One of the channels in the mask was busy meanwhile, before an operation or after it. -/
def Active (mask : Nat) (log : History) : Prop :=
  ∃ entry ∈ log, entry.2.BusyIn mask ∨ (entry.1.effect entry.2).BusyIn mask
  deriving Decidable

theorem active_append {mask : Nat} {log log' : History} :
    Active mask (log ++ log') ↔ Active mask log ∨ Active mask log' := by
  simp only [Active, mem_append, or_and_right, exists_or]

/-! ## Runs of a thread and the sequencer -/

/-- What happens to a thread and to the sequencer. -/
inductive PauseAction
  /-- An operation on the sequencer, a tick of it for example. -/
  | op (op : SeqOp)
  | step (detectedAt : Nat)
  /-- The thread is called, which starts it anew. -/
  | call (arguments : List Int) (now : Nat)

/-- A reading of the source. -/
structure Sampled where
  /-- It was compared with the reading before. -/
  compared : Bool
  /-- The comparison made an event. -/
  published : Bool
  /-- What was done to the sequencer since the reading before. -/
  between : History

/-- A thread and the sequencer, with a record of what was done. -/
structure PauseRun (W : Type) where
  thread : NoobChangeThread
  world : W
  seq : Sequencer
  /-- What was done to the sequencer since the last reading. -/
  sinceReading : History := []
  /-- What was done to it since the last step. -/
  sinceStep : History := []
  /-- There was a step since the thread was started, and the last one did not pause. -/
  watching : Bool := false
  readings : List Sampled := []

namespace PauseRun

variable (natives : SeqNatives W) (depth : Nat)

/-- The reading a step takes, and what its source does to the sequencer meanwhile. -/
def sample (r : PauseRun W) :
    Except (Option String) Int × NoobChangeThread × ((W × History) × Sequencer) :=
  r.thread.sample (natives.beside History) (SeqOp.record natives depth) ((r.world, []), r.seq)

/-- A step. -/
def step (detectedAt : Nat) (r : PauseRun W) : PauseRun W :=
  let (reading, t, (_, log), _) := r.sample natives depth
  let (_, thread, (world, _), seq) := r.thread.step (natives.beside History)
    (SeqOp.record natives depth) detectedAt ((r.world, []), r.seq)
  let r := { r with
    thread := thread
    world := world
    seq := seq
    sinceStep := log
    watching := !r.thread.paused r.seq
    sinceReading := r.sinceReading ++ log }
  match reading with
  | .error _ => r
  | .ok current =>
    { r with
      sinceReading := log
      readings := r.readings ++ [⟨t.havePrevious, (t.detect current).1, r.sinceReading⟩] }

/-- One action. -/
def act (r : PauseRun W) : PauseAction → PauseRun W
  | .op op =>
    let ((world, log), seq) := op.record natives depth ((r.world, []), r.seq)
    { r with
      world := world
      seq := seq
      sinceReading := r.sinceReading ++ log
      sinceStep := r.sinceStep ++ log }
  | .step detectedAt => r.step natives depth detectedAt
  | .call arguments now =>
    let (result, thread) := r.thread.call arguments now
    if result.ok then { r with thread := thread, watching := false } else r

end PauseRun

/-! ## The record is only looked on -/

section

variable {G : Type} {natives : SeqNatives W} {perform : SeqOp → W × Sequencer → W × Sequencer}
  {perform' : SeqOp → (W × G) × Sequencer → (W × G) × Sequencer}
  (h : ∀ op q, Script.forget (perform' op q) = perform op (Script.forget q))

include h

theorem NoobProgramChannel.invoke_forget (c : NoobProgramChannel) (p : (W × G) × Sequencer) :
    c.invoke natives perform (Script.forget p) =
      ((c.invoke (natives.beside G) perform' p).1,
        Script.forget (c.invoke (natives.beside G) perform' p).2) := by
  rw [invoke, invoke, NativeRegistry.find_beside]
  cases natives.find c.functionId with
  | none => rfl
  | some entry =>
    dsimp only [Option.map_some]
    rw [NativeRegistry.callMixed_beside]
    obtain ⟨hanswer, hstate⟩ := Script.exec_beside h
      (NativeRegistry.callMixed entry (c.callArguments 0 false) c.ascii) p
    have hbusy : ({ c with busy := true } : NoobProgramChannel).callArguments 0 false =
      c.callArguments 0 false := rfl
    rw [hbusy, hanswer, hstate]

namespace NoobChangeThread

theorem sample_forget (t : NoobChangeThread) (p : (W × G) × Sequencer) :
    t.sample natives perform (Script.forget p) =
      ((t.sample (natives.beside G) perform' p).1, (t.sample (natives.beside G) perform' p).2.1,
        Script.forget (t.sample (natives.beside G) perform' p).2.2) := by
  rw [sample, sample, t.source.invoke_forget h]
  have hseq : (Script.forget p).2 = p.2 := rfl
  rw [hseq]
  split
  · rfl
  split
  · rfl
  dsimp only
  split
  · rfl
  split
  · rfl
  split
  · rfl
  · rfl

theorem step_forget (detectedAt : Nat) (t : NoobChangeThread) (p : (W × G) × Sequencer) :
    t.step natives perform detectedAt (Script.forget p) =
      ((t.step (natives.beside G) perform' detectedAt p).1,
        (t.step (natives.beside G) perform' detectedAt p).2.1,
        Script.forget (t.step (natives.beside G) perform' detectedAt p).2.2) := by
  rw [step, step, t.sample_forget h]
  rcases t.sample (natives.beside G) perform' p with ⟨event | current, u, q⟩
  · rfl
  dsimp only
  split
  · rfl
  · rfl

end NoobChangeThread

end

namespace PauseRun

variable (natives : SeqNatives W) (depth : Nat)

/-- The same actions without a record. -/
def plain (q : NoobChangeThread × (W × Sequencer)) :
    PauseAction → NoobChangeThread × (W × Sequencer)
  | .op op => (q.1, op.perform natives depth q.2)
  | .step detectedAt => (q.1.step natives (SeqOp.perform natives depth) detectedAt q.2).2
  | .call arguments now => ((q.1.call arguments now).2, q.2)

/-- A run with the record forgotten. -/
def forget (r : PauseRun W) : NoobChangeThread × (W × Sequencer) := (r.thread, (r.world, r.seq))

/-- **Forgetting the record gives back the run.** -/
theorem act_forget (r : PauseRun W) (a : PauseAction) :
    (r.act natives depth a).forget = plain natives depth r.forget a := by
  cases a with
  | op op =>
    have hop := SeqOp.record_forget natives depth op ((r.world, []), r.seq)
    exact congrArg (Prod.mk r.thread) hop
  | step detectedAt =>
    have hplain : plain natives depth r.forget (.step detectedAt) = _ :=
      congrArg Prod.snd (r.thread.step_forget (SeqOp.record_forget natives depth) detectedAt
        ((r.world, []), r.seq))
    rw [hplain, act, step]
    dsimp only
    split
    · rfl
    · rfl
  | call arguments now =>
    rcases r.thread.call_cases arguments now with ⟨hrefused, hthread⟩ | ⟨hok, -⟩
    · have hplain : plain natives depth r.forget (.call arguments now) = r.forget :=
        congrArg (fun t ↦ (t, (r.world, r.seq))) hthread
      rw [act, hplain]
      dsimp only
      rw [hrefused]
      rfl
    · rw [act]
      dsimp only
      rw [hok]
      rfl

/-! ## Steps -/

/-- What the source does to the sequencer if it is called now. -/
def sourceLog (r : PauseRun W) : History :=
  (r.thread.source.invoke (natives.beside History) (SeqOp.record natives depth)
    ((r.world, []), r.seq)).2.1.2

/-- **What a step does**: nothing without a registry; forget the baseline if it has to pause; and
otherwise call the source, which may be without a reading. -/
theorem step_cases (r : PauseRun W) (detectedAt : Nat) :
    let log := r.sourceLog natives depth
    (r.thread.begun = false ∧ r.step natives depth detectedAt =
        ⟨r.thread, r.world, r.seq, r.sinceReading, [], !r.thread.paused r.seq, r.readings⟩) ∨
      (r.thread.paused r.seq = true ∧ r.step natives depth detectedAt =
        ⟨{ r.thread with havePrevious := false }, r.world, r.seq, r.sinceReading, [], false,
          r.readings⟩) ∨
      (r.thread.begun = true ∧ r.thread.paused r.seq = false ∧ ∃ source w s,
        r.step natives depth detectedAt =
            ⟨{ r.thread with source := source }, w, s, r.sinceReading ++ log, log, true,
              r.readings⟩ ∨
          ∃ current program, r.step natives depth detectedAt =
            ⟨{ ({ r.thread with source := source }.detect current).2 with program := program },
              w, s, log, log, true, r.readings ++ [⟨r.thread.havePrevious,
                ({ r.thread with source := source }.detect current).1,
                r.sinceReading ++ log⟩]⟩) := by
  have hcases := r.thread.sample_cases (natives.beside History) (SeqOp.record natives depth)
    ((r.world, []), r.seq)
  rw [PauseRun.step, sample, NoobChangeThread.step]
  rcases hcases with ⟨hbegun, hsample⟩ | ⟨-, hpaused, hsample⟩ |
    ⟨hbegun, hpaused, hinvoke, source, hsource⟩
  · refine .inl ⟨hbegun, ?_⟩
    rw [hsample]
    dsimp only
    rw [append_nil]
  · have hpaused : r.thread.paused r.seq = true := hpaused
    refine .inr (.inl ⟨hpaused, ?_⟩)
    rw [hsample]
    dsimp only
    rw [append_nil, hpaused, Bool.not_true]
  · have hpaused : r.thread.paused r.seq = false := hpaused
    refine .inr (.inr ⟨hbegun, hpaused, source, ?_⟩)
    rw [sourceLog, ← hinvoke]
    generalize r.thread.sample (natives.beside History) (SeqOp.record natives depth)
      ((r.world, []), r.seq) = sampled at hsource ⊢
    obtain ⟨reading, t, ⟨w, log⟩, s⟩ := sampled
    obtain rfl : t = { r.thread with source := source } := hsource
    refine ⟨w, s, ?_⟩
    dsimp only
    rw [hpaused, Bool.not_false]
    cases reading with
    | error event => exact .inl rfl
    | ok current =>
      dsimp only
      split
      · exact .inr ⟨current, _, rfl⟩
      · exact .inr ⟨current, _, rfl⟩

/-! ## Isolation -/

/-- A step sees what has been going on: if it does not pause and neither did the step before, then
none of the channels the thread pauses for was active since, or is made so by the source. -/
def Sees (r : PauseRun W) : PauseAction → Prop
  | .step _ => r.watching = true → r.thread.paused r.seq = false →
      ¬ Active r.thread.pauseSequenceChannelMask (r.sinceStep ++ r.sourceLog natives depth)
  | _ => True

instance (r : PauseRun W) (a : PauseAction) : Decidable (r.Sees natives depth a) :=
  match a with
  | .step _ => inferInstanceAs (Decidable (_ → _ → ¬ _))
  | .op _ => .isTrue trivial
  | .call _ _ => .isTrue trivial

end PauseRun

/-- The readings are isolated from the channels in the mask. -/
structure Isolated (mask : Nat) (readings : List Sampled) : Prop where
  /-- No event compares a reading with one from before an activity. -/
  event : ∀ reading ∈ readings, reading.published = true → ¬ Active mask reading.between
  /-- The first reading after an activity is a baseline. -/
  baseline : ∀ reading ∈ readings, Active mask reading.between → reading.compared = false

theorem Isolated.append {mask : Nat} {readings : List Sampled} (h : Isolated mask readings)
    {reading : Sampled} (hpublished : reading.published = true → reading.compared = true)
    (hcompared : reading.compared = true → ¬ Active mask reading.between) :
    Isolated mask (readings ++ [reading]) := by
  constructor
  · intro other hother hevent
    rcases mem_append.mp hother with hold | hnew
    · exact h.event other hold hevent
    · obtain rfl := mem_singleton.mp hnew
      exact hcompared (hpublished hevent)
  · intro other hother hactive
    rcases mem_append.mp hother with hold | hnew
    · exact h.baseline other hold hactive
    · obtain rfl := mem_singleton.mp hnew
      exact Bool.eq_false_iff.mpr fun h ↦ hcompared h hactive

theorem NoobChangeThread.settle_keeps (t : NoobChangeThread) (delta : Int) :
    (t.settle delta).havePrevious = t.havePrevious ∧ (t.settle delta).begun = t.begun ∧
      (t.settle delta).pauseSequenceChannelMask = t.pauseSequenceChannelMask := by
  rw [settle]
  split <;> exact ⟨rfl, rfl, rfl⟩

theorem NoobChangeThread.detect_keeps (t : NoobChangeThread) (current : Int) :
    ((t.detect current).1 = true → t.havePrevious = true) ∧
      (t.detect current).2.begun = t.begun ∧
      (t.detect current).2.pauseSequenceChannelMask = t.pauseSequenceChannelMask := by
  rw [detect]
  split
  · exact ⟨by simp, rfl, rfl⟩
  rename_i hprevious
  have hcompared : t.havePrevious = true := by simpa using hprevious
  dsimp only
  split
  · exact ⟨by simp, (settle_keeps _ _).2⟩
  split
  · exact ⟨by simp, rfl, rfl⟩
  · exact ⟨fun _ ↦ hcompared, rfl, rfl⟩

namespace PauseRun

variable (natives : SeqNatives W) (depth : Nat)

/-- **The invariant of a run.**  A thread that has a baseline has not paused since it took it, and
whatever was active since then was active since its last step. -/
structure Guarded (mask : Nat) (r : PauseRun W) : Prop where
  sameMask : r.thread.pauseSequenceChannelMask = mask
  begun : r.thread.havePrevious = true → r.thread.begun = true
  watching : r.thread.havePrevious = true → r.watching = true
  active : r.thread.havePrevious = true → Active mask r.sinceReading → Active mask r.sinceStep
  isolated : Isolated mask r.readings

variable {natives depth} {mask : Nat} {r : PauseRun W}

theorem Guarded.read (h : Guarded mask r) (detectedAt : Nat)
    (hsees : r.Sees natives depth (.step detectedAt)) (hpaused : r.thread.paused r.seq = false)
    (hprevious : r.thread.havePrevious = true) :
    ¬ Active mask (r.sinceReading ++ r.sourceLog natives depth) := by
  have hquiet := hsees (h.watching hprevious) hpaused
  rw [h.sameMask, active_append] at hquiet
  rw [active_append]
  exact fun hactive ↦ hquiet (hactive.imp_left (h.active hprevious))

/-- A step keeps the invariant, if it sees what has been going on. -/
theorem Guarded.step (h : Guarded mask r) (detectedAt : Nat)
    (hsees : r.Sees natives depth (.step detectedAt)) :
    Guarded mask (r.step natives depth detectedAt) := by
  rcases r.step_cases natives depth detectedAt with ⟨hbegun, hstep⟩ | ⟨-, hstep⟩ |
    ⟨hbegun, hpaused, source, w, s, hstep | ⟨current, program, hstep⟩⟩
  · -- without a registry there never was a reading
    have hnone : r.thread.havePrevious ≠ true := fun hprevious ↦ by
      rw [h.begun hprevious] at hbegun
      cases hbegun
    rw [hstep]
    exact ⟨h.sameMask, h.begun, fun h ↦ absurd h hnone, fun h ↦ absurd h hnone, h.isolated⟩
  · rw [hstep]
    exact ⟨h.sameMask, nofun, nofun, nofun, h.isolated⟩
  · rw [hstep]
    exact ⟨h.sameMask, h.begun, fun _ ↦ rfl, fun hprevious hactive ↦
      absurd hactive (h.read detectedAt hsees hpaused hprevious), h.isolated⟩
  · obtain ⟨hevent, hbegun', hmask⟩ := { r.thread with source := source }.detect_keeps current
    rw [hstep]
    exact ⟨hmask.trans h.sameMask, fun _ ↦ hbegun'.trans hbegun, fun _ ↦ rfl, fun _ ↦ id,
      h.isolated.append hevent (h.read detectedAt hsees hpaused)⟩

theorem Guarded.act (h : Guarded mask r) (a : PauseAction) (hsees : r.Sees natives depth a) :
    Guarded mask (r.act natives depth a) := by
  cases a with
  | op op =>
    refine ⟨h.sameMask, h.begun, h.watching, fun hprevious hactive ↦ ?_, h.isolated⟩
    exact active_append.mpr ((active_append.mp hactive).imp_left (h.active hprevious))
  | step detectedAt => exact h.step detectedAt hsees
  | call arguments now =>
    rw [PauseRun.act]
    dsimp only
    split
    · rename_i hok
      rcases r.thread.call_cases arguments now with ⟨hrefused, -⟩ | ⟨-, program, threshold, hthread⟩
      · rw [hrefused] at hok
        cases hok
      · rw [hthread]
        exact ⟨h.sameMask, nofun, nofun, nofun, h.isolated⟩
    · exact h

/-- A photoresistor, and a lamp that shines on it. -/
def lamp : SeqNatives Int :=
  ⟨[⟨1, Bytes.ofAscii "LED", .numericAdapter fun arguments _ _ ↦
      (⟨true, 0, "", .empty⟩, [], 500 * arguments.headD 0)⟩,
    ⟨5, Bytes.ofAscii "LIGHT", .numericAdapter fun _ light _ ↦
      (⟨true, light, "", .empty⟩, [], light)⟩]⟩

/-- The photoresistor's thread, which pauses for the channels 0 and 1, in the dark. -/
def watchLight : PauseRun Int :=
  let t : NoobChangeThread :=
    ⟨{ intervalMs := 250 }, false, {}, 5, "LIGHT_CHANGED", 200, 4, 3, 0, false, true, 0⟩
  ⟨t.begin, 0, Sequencer.begin {} lamp.directory, [], [], false, []⟩

/-- The lamp is switched on and off by a sequence that the thread sees. -/
def flash : List PauseAction :=
  [.op (.setNumeric [0, 300, 1, 2, 2] [] true), .call [] 0, .step 0, .op (.start [0] 0),
    .op (.tick 0), .step 250, .op (.tick 300), .step 500, .step 750]

/-- The lamp is switched on between two steps. -/
def blink : List PauseAction :=
  [.op (.setNumeric [0, 200, 1, 1, 1] [] true), .call [] 0, .step 0, .op (.start [0] 10),
    .op (.tick 10), .step 250]

end PauseRun

end Noobia
