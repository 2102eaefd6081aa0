import Noobia.Lib.Int32
import Noobia.Lib.Rearm
import Noobia.Sequence.Service
import Noobia.Thread.Sampling

/-!
# The thread that detects changes

A `NoobChangeThreadProgram` calls a native function at every step, its source, and compares what it
reads with the reading before.  A difference of at least the threshold is an event.  After an event
the thread is disarmed, until as many readings in a row as it was constructed with stay close to
their predecessors.

Not every step has something to compare.  The source may fail; and while a channel of the sequencer
is busy that the thread is told to pause for, it does not read the source at all and forgets the
reading it had, so that the next one is only a new baseline.  Neither of these touches the count of
steady readings.  `rearms` says what that makes of a whole run: between any two events there are
enough steady comparisons in a row, and every event is a comparison that reaches the threshold.
-/

namespace Noobia

open List

variable {W : Type}

/-- `NoobChangeThreadProgram`. -/
structure NoobChangeThread where
  /-- The base class's part. -/
  program : NoobThreadProgram
  /-- `registry_` is set. -/
  begun : Bool := false
  source : NoobProgramChannel := {}
  /-- `sourceFunctionId_`, a `uint16_t`. -/
  sourceFunctionId : Nat
  eventName : String
  /-- `changeThreshold_`, an `int32_t`. -/
  changeThreshold : Int
  /-- `rearmSamples_`, a `uint8_t`. -/
  rearmSamples : Nat
  /-- `pauseSequenceChannelMask_`, a `uint8_t`. -/
  pauseSequenceChannelMask : Nat := 0
  /-- `previous_`, an `int32_t`. -/
  previous : Int := 0
  havePrevious : Bool := false
  armed : Bool := true
  /-- `stableSamples_`, a `uint8_t`. -/
  stableSamples : Nat := 0

/-- `source_.invoke(*registry_, 0, false)`. -/
def NoobProgramChannel.invoke (natives : SeqNatives W)
    (perform : SeqOp → W × Sequencer → W × Sequencer) (c : NoobProgramChannel) (p : W × Sequencer) :
    NoobProgramChannel × (W × Sequencer) :=
  let c := { c with busy := true }
  match natives.find c.functionId with
  | none => (c.missing, p)
  | some entry =>
    let r := Script.exec perform
      (NativeRegistry.callMixed entry (c.callArguments 0 false) c.ascii) p
    (c.finished r.1, r.2)

namespace NoobChangeThread

variable (t : NoobChangeThread)

/-- `source_.configure(sourceFunctionId_, nullptr, 0)`, which nothing can make fail. -/
def configureSource : NoobProgramChannel :=
  (t.source.configure t.sourceFunctionId [] []).getD t.source

def begin : NoobChangeThread :=
  { t with begun := true, source := t.configureSource }

def onStart : NoobChangeThread :=
  { t with havePrevious := false, armed := true, stableSamples := 0, source := t.configureSource }

def call (arguments : List Int) (now : Nat) : NativeResult × NoobChangeThread :=
  if 2 < arguments.length || arguments[0]?.any (· < 1) || arguments[1]?.any (· < 50) then
    (.fail "usage: [change_delta] [interval_ms>=50]", t)
  else
    let changeThreshold := arguments[0]?.getD t.changeThreshold
    let intervalMs := (arguments[1]?.map Int.toNat).getD t.program.intervalMs
    let (result, program) := { t.program with intervalMs := intervalMs }.call [] now
    ({ result with detail := result.detail ++ " change_delta=" ++ toString changeThreshold },
      { t.onStart with program := program, changeThreshold := changeThreshold })

/-- **What a call does**: it is refused, or the thread is started anew. -/
theorem call_cases (arguments : List Int) (now : Nat) :
    ((t.call arguments now).1.ok = false ∧ (t.call arguments now).2 = t) ∨
      ((t.call arguments now).1.ok = true ∧ ∃ program threshold, (t.call arguments now).2 =
        { t.onStart with program := program, changeThreshold := threshold }) := by
  rw [call]
  split
  · exact .inl ⟨rfl, rfl⟩
  · exact .inr ⟨rfl, _, _, rfl⟩

/-- `SequenceService::busyMask() & pauseSequenceChannelMask_`. -/
def paused (s : Sequencer) : Bool :=
  s.busyMask &&& t.pauseSequenceChannelMask ≠ 0

/-- The beginning of `step`: a reading, or what the step ends with. -/
def sample (natives : SeqNatives W) (perform : SeqOp → W × Sequencer → W × Sequencer)
    (t : NoobChangeThread) (p : W × Sequencer) :
    Except (Option String) Int × NoobChangeThread × (W × Sequencer) :=
  if !t.begun then (.error none, t, p)
  else if t.paused p.2 then (.error none, { t with havePrevious := false }, p)
  else
    let (source, p) := t.source.invoke natives perform p
    if !source.lastOk then
      (.error (some ("NRP/1 0 EVENT " ++ t.eventName ++ "_ERROR detail=" ++ source.lastDetail)),
        { t with source := source }, p)
    else
      match source.results.pop with
      | none => (.error none, { t with source := source }, p)
      | some (sampled, queue) =>
        let t := { t with source := { source with results := queue } }
        match sampled.primary with
        | none => (.error none, t, p)
        | some current => (.ok current, t, p)

def delta (previous current : Int) : Int :=
  Int.bmod (if previous < current then current - previous else previous - current) (2 ^ 32)

def rearmMargin : Int :=
  if 5 < t.changeThreshold.tdiv 4 then t.changeThreshold.tdiv 4 else 5

/-- The steady readings in a row, this one included. -/
def nextStable (delta : Int) : Nat :=
  if delta ≤ t.rearmMargin then (t.stableSamples + 1) % 256 else 0

/-- What `step` makes of a difference while it is disarmed. -/
def settle (delta : Int) : NoobChangeThread :=
  if t.rearmSamples ≤ t.nextStable delta then { t with armed := true, stableSamples := 0 }
  else { t with stableSamples := t.nextStable delta }

/-- What `step` makes of a reading, and whether it is an event. -/
def detect (current : Int) : Bool × NoobChangeThread :=
  if !t.havePrevious then (false, { t with previous := current, havePrevious := true })
  else
    let delta := delta t.previous current
    let t := { t with previous := current }
    if !t.armed then (false, t.settle delta)
    else if delta < t.changeThreshold then (false, t)
    else (true, { t with armed := false, stableSamples := 0 })

/-- `step`, with `detectedAt` what `MonotonicTimeService::milliseconds()` returns. -/
def step (natives : SeqNatives W) (perform : SeqOp → W × Sequencer → W × Sequencer)
    (detectedAt : Nat) (t : NoobChangeThread) (p : W × Sequencer) :
    Option String × NoobChangeThread × (W × Sequencer) :=
  match t.sample natives perform p with
  | (.error event, t, p) => (event, t, p)
  | (.ok current, t, p) =>
    let (changed, t) := t.detect current
    if !changed then (none, t, p)
    else
      (some ("NRP/1 0 EVENT " ++ t.eventName ++ " time_ms=" ++ toString detectedAt),
        { t with program := t.program.publish (Int.bmod detectedAt (2 ^ 32)) }, p)

/-- `tick`, with the two readings of the clock it takes. -/
def tick (natives : SeqNatives W) (perform : SeqOp → W × Sequencer → W × Sequencer)
    (now later detectedAt : Nat) (t : NoobChangeThread) (p : W × Sequencer) :
    Option String × NoobChangeThread × (W × Sequencer) :=
  if !t.program.due now then (none, t, p)
  else { t with program := t.program.rearm later }.step natives perform detectedAt p

/-! ## Comparisons -/

/-- A reading compared with the one before, and whether that made an event. -/
structure Comparison where
  before : Int
  after : Int
  published : Bool
  deriving DecidableEq

/-- How far the readings are apart. -/
def Comparison.distance (c : Comparison) : Int := (c.after - c.before).natAbs

/-- What a tick of the thread finds: the readings of the two clocks, the world of the native
functions and the sequencer. -/
structure Occasion (W : Type) where
  /-- What `millis()` returns first. -/
  now : Nat
  /-- What it returns then. -/
  later : Nat
  /-- What `MonotonicTimeService::milliseconds()` returns. -/
  detectedAt : Nat
  found : W × Sequencer

variable (natives : SeqNatives W) (perform : SeqOp → W × Sequencer → W × Sequencer)

/-- The comparison a tick makes, if any. -/
def comparison (t : NoobChangeThread) (o : Occasion W) : Option Comparison :=
  if !t.program.due o.now then none
  else
    match { t with program := t.program.rearm o.later }.sample natives perform o.found with
    | (.error _, _) => none
    | (.ok current, t, _) =>
      if t.havePrevious then some ⟨t.previous, current, (t.detect current).1⟩ else none

/-- A tick, with the comparison it makes added to a list. -/
def observe (s : NoobChangeThread × List Comparison) (o : Occasion W) :
    NoobChangeThread × List Comparison :=
  ((s.1.tick natives perform o.now o.later o.detectedAt o.found).2.1,
    s.2 ++ (s.1.comparison natives perform o).toList)

/-- Two threads that are equally far from their next event. -/
structure SameDetector (a b : NoobChangeThread) : Prop where
  changeThreshold : a.changeThreshold = b.changeThreshold
  rearmSamples : a.rearmSamples = b.rearmSamples
  armed : a.armed = b.armed
  stableSamples : a.stableSamples = b.stableSamples

variable (t : NoobChangeThread) {c : Comparison} {t' : NoobChangeThread}
  {between log : List Comparison}

/-- **What a step does before it has a reading**: nothing without a registry; forget the baseline if
it has to pause; and otherwise call the source. -/
theorem sample_cases (p : W × Sequencer) :
    (t.begun = false ∧ t.sample natives perform p = (.error none, t, p)) ∨
      (t.begun = true ∧ t.paused p.2 = true ∧
        t.sample natives perform p = (.error none, { t with havePrevious := false }, p)) ∨
      (t.begun = true ∧ t.paused p.2 = false ∧
        (t.sample natives perform p).2.2 = (t.source.invoke natives perform p).2 ∧
        ∃ source, (t.sample natives perform p).2.1 = { t with source := source }) := by
  rw [sample]
  cases hbegun : t.begun with
  | false => exact .inl ⟨rfl, rfl⟩
  | true =>
    cases hpaused : t.paused p.2 with
    | true => exact .inr (.inl ⟨rfl, rfl, rfl⟩)
    | false =>
      refine .inr (.inr ⟨rfl, rfl, ?_⟩)
      simp only [Bool.not_true, Bool.false_eq_true, if_false]
      split
      · exact ⟨rfl, _, rfl⟩
      split
      · exact ⟨rfl, _, rfl⟩
      split
      · exact ⟨rfl, _, rfl⟩
      · exact ⟨rfl, _, rfl⟩

theorem sameDetector_sample (p : W × Sequencer) :
    SameDetector (t.sample natives perform p).2.1 t := by
  rcases t.sample_cases natives perform p with
    ⟨-, hsample⟩ | ⟨-, -, hsample⟩ | ⟨-, -, -, source, hsample⟩
  · rw [hsample]
    exact ⟨rfl, rfl, rfl, rfl⟩
  · rw [hsample]
    exact ⟨rfl, rfl, rfl, rfl⟩
  · rw [hsample]
    exact ⟨rfl, rfl, rfl, rfl⟩

/-- **What a tick does to the detector**: nothing, or what a comparison does. -/
theorem tick_cases (o : Occasion W) :
    (t.comparison natives perform o = none ∧
        SameDetector (t.tick natives perform o.now o.later o.detectedAt o.found).2.1 t) ∨
      ∃ u current, SameDetector u t ∧ u.havePrevious = true ∧
        t.comparison natives perform o = some ⟨u.previous, current, (u.detect current).1⟩ ∧
        SameDetector (t.tick natives perform o.now o.later o.detectedAt o.found).2.1
          (u.detect current).2 := by
  rw [comparison, tick]
  split
  · exact .inl ⟨rfl, rfl, rfl, rfl, rfl⟩
  have hsame := sameDetector_sample natives perform
    { t with program := t.program.rearm o.later } o.found
  rw [step]
  generalize { t with program := t.program.rearm o.later }.sample natives perform o.found =
    sampled at hsame ⊢
  obtain ⟨reading, u, p⟩ := sampled
  obtain ⟨hthreshold, hrearm, harmed, hstable⟩ := hsame
  cases reading with
  | error event => exact .inl ⟨rfl, hthreshold, hrearm, harmed, hstable⟩
  | ok current =>
    cases hprevious : u.havePrevious with
    | false =>
      -- the reading becomes the baseline
      have hdetect : u.detect current =
          (false, { u with previous := current, havePrevious := true }) := by
        rw [detect, hprevious]
        rfl
      simp only [hdetect, hprevious]
      exact .inl ⟨rfl, hthreshold, hrearm, harmed, hstable⟩
    | true =>
      refine .inr ⟨u, current, ⟨hthreshold, hrearm, harmed, hstable⟩, hprevious, ?_, ?_⟩
      · simp only [hprevious, if_true]
      dsimp only
      split
      · exact ⟨rfl, rfl, rfl, rfl⟩
      · exact ⟨rfl, rfl, rfl, rfl⟩

/-! ## Steady readings -/

/-- So many comparisons in a row that are within the margin. -/
def Steady (margin : Int) (n : Nat) (list : List Comparison) : Prop :=
  ∃ before window after, list = before ++ (window ++ after) ∧ n ≤ window.length ∧
    ∀ c ∈ window, c.distance ≤ margin

/-- The margin of a threshold. -/
def margin (threshold : Int) : Int := max (threshold.tdiv 4) 5

theorem rearmMargin_eq : t.rearmMargin = margin t.changeThreshold := by
  rw [rearmMargin, margin]
  omega

/-- What is to be shown of the comparisons of a run: every event reaches the threshold, and between
two events there are enough steady comparisons in a row. -/
structure Rearms (threshold : Int) (rearmSamples : Nat) (log : List Comparison) : Prop where
  reaches : ∀ c ∈ log, c.published = true → threshold ≤ c.distance
  steady : ∀ before first between second after,
    log = before ++ first :: (between ++ second :: after) → first.published = true →
      second.published = true → Steady (margin threshold) rearmSamples between

/-- The readings are numbers for which no difference overflows. -/
def Readings (log : List Comparison) : Prop :=
  ∀ c ∈ log, (0 ≤ c.before ∧ c.before < 2 ^ 31) ∧ (0 ≤ c.after ∧ c.after < 2 ^ 31)

theorem delta_eq (h : Readings [c]) : delta c.before c.after = c.distance := by
  obtain ⟨hbefore, hafter⟩ := h c (mem_singleton_self c)
  rw [delta, Comparison.distance]
  split
  · rw [bmod_of_isInt32 ⟨by omega, by omega⟩]
    omega
  · rw [bmod_of_isInt32 ⟨by omega, by omega⟩]
    omega

/-- The invariant of a run. -/
structure Follows (t : NoobChangeThread) (log : List Comparison) : Prop where
  reaches : ∀ c ∈ log, c.published = true → t.changeThreshold ≤ c.distance
  rests : Rearm.Follows Comparison.published (fun c ↦ c.distance ≤ margin t.changeThreshold)
    t.rearmSamples (t.armed, t.stableSamples) log

theorem Follows.congr {t t' : NoobChangeThread} {log : List Comparison} (h : Follows t log)
    (hsame : SameDetector t' t) : Follows t' log := by
  refine ⟨?_, ?_⟩
  · rw [hsame.changeThreshold]
    exact h.reaches
  · rw [hsame.changeThreshold, hsame.rearmSamples, hsame.armed, hsame.stableSamples]
    exact h.rests

theorem settle_spec (t : NoobChangeThread) (delta : Int) (harmed : t.armed = false) :
    (t.settle delta).changeThreshold = t.changeThreshold ∧
      (t.settle delta).rearmSamples = t.rearmSamples ∧
      ((t.settle delta).armed, (t.settle delta).stableSamples) =
        if t.rearmSamples ≤ t.nextStable delta then (true, 0) else (false, t.nextStable delta) := by
  rw [settle]
  split
  · exact ⟨rfl, rfl, rfl⟩
  · exact ⟨rfl, rfl, by rw [harmed]⟩

/-- **What a comparison does to the detector.** -/
theorem detect_step {t : NoobChangeThread} (hprevious : t.havePrevious = true) {current : Int}
    (hreadings : Readings [⟨t.previous, current, (t.detect current).1⟩]) :
    ((t.detect current).1 = true →
        t.changeThreshold ≤ Comparison.distance ⟨t.previous, current, (t.detect current).1⟩) ∧
      Rearm.Step Comparison.published (fun c ↦ c.distance ≤ margin t.changeThreshold)
        t.rearmSamples (t.armed, t.stableSamples) ⟨t.previous, current, (t.detect current).1⟩
        ((t.detect current).2.armed, (t.detect current).2.stableSamples) := by
  have hdelta := delta_eq hreadings
  cases harmed : t.armed with
  | false =>
    have hdetect : t.detect current =
        (false, { t with previous := current }.settle (delta t.previous current)) := by
      simp [detect, hprevious, harmed]
    rw [hdetect] at hdelta ⊢
    rw [hdelta]
    refine ⟨nofun, ?_⟩
    rw [(settle_spec { t with previous := current } _ harmed).2.2]
    refine .count rfl ?_
    rw [nextStable, rearmMargin_eq]
    split
    · exact .inr ⟨Nat.mod_le _ _, ‹_›⟩
    · exact .inl rfl
  | true =>
    by_cases hsmall : delta t.previous current < t.changeThreshold
    · have hdetect : t.detect current = (false, { t with previous := current }) := by
        simp [detect, hprevious, harmed, hsmall]
      rw [hdetect]
      refine ⟨nofun, ?_⟩
      dsimp only
      rw [harmed]
      exact .quiet rfl
    · have hdetect : t.detect current =
          (true, { t with previous := current, armed := false, stableSamples := 0 }) := by
        simp [detect, hprevious, harmed, hsmall]
      rw [hdetect] at hdelta ⊢
      exact ⟨fun _ ↦ (Int.not_lt.mp hsmall).trans_eq hdelta, .event rfl⟩

theorem detect_parameters (t : NoobChangeThread) (current : Int) :
    (t.detect current).2.changeThreshold = t.changeThreshold ∧
      (t.detect current).2.rearmSamples = t.rearmSamples := by
  rw [NoobChangeThread.detect]
  split
  · exact ⟨rfl, rfl⟩
  dsimp only
  split
  · rename_i harmed
    obtain ⟨hthreshold, hrearm, -⟩ := settle_spec { t with previous := current }
      (delta t.previous current) (by simpa using harmed)
    exact ⟨hthreshold, hrearm⟩
  · split <;> exact ⟨rfl, rfl⟩

theorem Follows.detect {t : NoobChangeThread} {log : List Comparison} (h : Follows t log)
    (hprevious : t.havePrevious = true) {current : Int}
    (hreadings : Readings [⟨t.previous, current, (t.detect current).1⟩]) :
    Follows (t.detect current).2 (log ++ [⟨t.previous, current, (t.detect current).1⟩]) := by
  obtain ⟨hthreshold, hrearm⟩ := t.detect_parameters current
  obtain ⟨hreaches, hstep⟩ := detect_step hprevious hreadings
  refine ⟨fun c hc hpublished ↦ ?_, ?_⟩
  · rw [hthreshold]
    rcases mem_append.mp hc with hold | hnew
    · exact h.reaches c hold hpublished
    · obtain rfl := mem_singleton.mp hnew
      exact hreaches hpublished
  · rw [hthreshold, hrearm]
    exact h.rests.step hstep

/-- A tick keeps the invariant, if its reading is in range, and it never changes the threshold. -/
theorem follows_observe {s : NoobChangeThread × List Comparison}
    (h : Readings s.2 → Follows s.1 s.2) (o : Occasion W) :
    (Readings (observe natives perform s o).2 →
        Follows (observe natives perform s o).1 (observe natives perform s o).2) ∧
      (observe natives perform s o).1.changeThreshold = s.1.changeThreshold ∧
      (observe natives perform s o).1.rearmSamples = s.1.rearmSamples := by
  rw [observe]
  rcases tick_cases natives perform s.1 o with
    ⟨hnone, hsame⟩ | ⟨u, current, hu, hprevious, hsome, hsame⟩
  · rw [hnone, Option.toList_none, append_nil]
    exact ⟨fun hreadings ↦ (h hreadings).congr hsame, hsame.changeThreshold, hsame.rearmSamples⟩
  rw [hsome, Option.toList_some]
  obtain ⟨hthreshold, hrearm⟩ := u.detect_parameters current
  refine ⟨fun hreadings ↦ ?_, hsame.changeThreshold.trans (hthreshold.trans hu.changeThreshold),
    hsame.rearmSamples.trans (hrearm.trans hu.rearmSamples)⟩
  have hold := h fun c hc ↦ hreadings c (mem_append_left _ hc)
  exact ((hold.congr hu).detect hprevious fun c hc ↦
    hreadings c (mem_append_right _ hc)).congr hsame

/-- A source that reads a number off the world. -/
def gauge : SeqNatives Int :=
  ⟨[⟨5, Bytes.ofAscii "DISTANCE",
    .numericAdapter fun _ reading _ ↦ (⟨true, reading, "", .empty⟩, [], reading)⟩]⟩

/-- A thread on it that has been started, with a threshold of 100 and one steady reading to rearm.
-/
def watch : NoobChangeThread :=
  let t : NoobChangeThread :=
    ⟨{ intervalMs := 250 }, false, {}, 5, "MOVED", 100, 1, 0, 0, false, true, 0⟩
  (t.begin.call [] 0).2

/-- Its ticks find these readings, 250 ms apart. -/
def visits (readings : List Int) : List (Occasion Int) :=
  readings.mapIdx fun index reading ↦
    ⟨250 * index, 250 * index, 250 * index, (reading, {})⟩

end NoobChangeThread

end Noobia
