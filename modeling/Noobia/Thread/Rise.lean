import Noobia.Lib.Ring
import Noobia.Thread.Change

/-!
# The thread that detects a rise

A `NoobWindowRiseThreadProgram` takes samples of a native function and puts them into buckets, each
as long as a given time.  Of a complete bucket it keeps the mean, for the last ten of them in a
ring.  When there are ten it compares the mean of the older five with the mean of the newer five,
and if that is a rise it queues an event and is disarmed, until enough comparisons in a row are not.

`window_means` relates the two means to the samples of a whole run and says that the thread rests
between events.  `rises_iff` is about what an event means: where the samples come to nothing and no
minimum level is asked for, the thread takes that for a rise.
-/

namespace Noobia

open List

variable {W : Type}

/-- `NoobWindowRiseThreadProgram`. -/
structure NoobWindowRiseThread where
  /-- The base class's part. -/
  program : NoobThreadProgram
  /-- `registry_` is set. -/
  begun : Bool := false
  source : NoobProgramChannel := {}
  /-- `sourceFunctionId_`, a `uint16_t`. -/
  sourceFunctionId : Nat
  eventName : String
  /-- `bucketDurationMs_`, a `uint32_t`. -/
  bucketDurationMs : Nat
  /-- `riseRatioPercent_`, a `uint16_t`. -/
  riseRatioPercent : Nat
  /-- `minimumNewLevel_`, an `int32_t`. -/
  minimumNewLevel : Int
  /-- `rearmBuckets_`, a `uint8_t`. -/
  rearmBuckets : Nat
  buckets : Fin 10 → Int := fun _ ↦ 0
  writeIndex : Fin 10 := 0
  filledBuckets : Nat := 0
  /-- `bucketSum_`, an `int64_t`. -/
  bucketSum : Int := 0
  /-- `bucketSamples_`, a `uint16_t`. -/
  bucketSamples : Nat := 0
  /-- `bucketStartedAt_`, a `uint32_t`. -/
  bucketStartedAt : Nat := 0
  /-- `olderMean_`, an `int32_t`. -/
  olderMean : Int := 0
  /-- `newerMean_`, an `int32_t`. -/
  newerMean : Int := 0
  armed : Bool := true
  /-- `stableBuckets_`, a `uint8_t`. -/
  stableBuckets : Nat := 0

namespace NoobWindowRiseThread

variable (t : NoobWindowRiseThread)

/-- `source_.configure(sourceFunctionId_, nullptr, 0)`, which nothing can make fail. -/
def configureSource : NoobProgramChannel :=
  (t.source.configure t.sourceFunctionId [] []).getD t.source

def begin : NoobWindowRiseThread := { t with begun := true, source := t.configureSource }

def onStart (now : Nat) : NoobWindowRiseThread :=
  { t with
    buckets := fun _ ↦ 0, writeIndex := 0, filledBuckets := 0, bucketSum := 0, bucketSamples := 0
    bucketStartedAt := now, olderMean := 0, newerMean := 0, armed := true, stableBuckets := 0
    source := t.configureSource }

def call (arguments : List Int) (now : Nat) : NativeResult × NoobWindowRiseThread :=
  if 2 < arguments.length || arguments[0]?.any (fun ratio ↦ ratio < 101 || 10000 < ratio) ||
      arguments[1]?.any (· < 0) then
    (.fail "usage: [ratio_percent(101..10000)] [minimum_level>=0]", t)
  else
    let riseRatioPercent := (arguments[0]?.map Int.toNat).getD t.riseRatioPercent
    let minimumNewLevel := arguments[1]?.getD t.minimumNewLevel
    let (result, program) := t.program.call [] now
    ({ result with detail := result.detail ++ " ratio_percent=" ++ toString riseRatioPercent ++
        " minimum_level=" ++ toString minimumNewLevel },
      { t.onStart now with program, riseRatioPercent, minimumNewLevel })

/-- The sum of five buckets from this one on, in an `int32_t`. -/
def halfSum (start : Fin 10) : Int :=
  [0, 1, 2, 3, 4].foldl (fun sum offset ↦ Int.bmod (sum + t.buckets (start + offset)) (2 ^ 32)) 0

def updateMeans : NoobWindowRiseThread :=
  if t.filledBuckets < 10 then { t with olderMean := 0, newerMean := 0 }
  else
    { t with
      olderMean := (Int.bmod (t.halfSum t.writeIndex + 2) (2 ^ 32)).tdiv 5
      newerMean := (Int.bmod (t.halfSum (t.writeIndex + 5) + 2) (2 ^ 32)).tdiv 5 }

def finishBucket (average : Int) : NoobWindowRiseThread :=
  { t with
    buckets := Function.update t.buckets t.writeIndex average
    writeIndex := t.writeIndex + 1
    filledBuckets := if t.filledBuckets < 10 then t.filledBuckets + 1
      else t.filledBuckets }.updateMeans

/-- The beginning of `step`: a level, or what the step ends with. -/
def sample (natives : SeqNatives W) (perform : SeqOp → W × Sequencer → W × Sequencer)
    (p : W × Sequencer) :
    Except (Option String) Int × NoobWindowRiseThread × (W × Sequencer) :=
  if !t.begun then (.error none, t, p)
  else
    let (source, p) := t.source.invoke natives perform p
    if !source.lastOk then
      (.error (some ("NRP/1 0 EVENT " ++ t.eventName ++ "_ERROR detail=" ++ source.lastDetail)),
        { t with source := source }, p)
    else
      match source.results.pop with
      | none => (.error none, { t with source := source }, p)
      | some (sampled, queue) =>
        let t := { t with source := { source with results := queue } }
        match sampled.primary with
        | none => (.error none, t, p)
        | some level => (.ok level, t, p)

/-- What `step` does with a level first. -/
def add (level : Int) : NoobWindowRiseThread :=
  { t with
    bucketSum := Int.bmod (t.bucketSum + level) (2 ^ 64)
    bucketSamples := (t.bucketSamples + 1) % 2 ^ 16 }

def average : Int :=
  if t.bucketSamples = 0 then 0
  else Int.bmod ((t.bucketSum + (t.bucketSamples / 2 : Nat)).tdiv t.bucketSamples) (2 ^ 32)

/-- The bucket is not complete yet, at the clock reading `now`. -/
def early (now : Nat) : Bool := ((now : Int) - t.bucketStartedAt) % 2 ^ 32 < t.bucketDurationMs

/-- What `step` does with a complete bucket, up to the comparison. -/
def complete (now : Nat) : NoobWindowRiseThread :=
  { t with bucketSum := 0, bucketSamples := 0, bucketStartedAt := now }.finishBucket t.average

def rose : Bool :=
  t.minimumNewLevel ≤ t.newerMean && t.olderMean * t.riseRatioPercent ≤ t.newerMean * 100

/-- The comparisons in a row that were no rise, this one included. -/
def nextStable : Nat := if t.rose then 0 else (t.stableBuckets + 1) % 256

/-- What `step` makes of a comparison while it is disarmed. -/
def settle : NoobWindowRiseThread :=
  if t.rearmBuckets ≤ t.nextStable then { t with armed := true, stableBuckets := 0 }
  else { t with stableBuckets := t.nextStable }

/-- What `step` makes of a complete bucket, and whether it is an event. -/
def detect : Bool × NoobWindowRiseThread :=
  if t.filledBuckets < 10 then (false, t)
  else if !t.armed then (false, t.settle)
  else if !t.rose then (false, t)
  else (true, { t with armed := false, stableBuckets := 0 })

/-- What a tick of the thread finds: the readings of the two clocks, the world of the native
functions and the sequencer. -/
structure Occasion (W : Type) where
  /-- What `millis()` returns in `tick`, first. -/
  now : Nat
  /-- What it returns then. -/
  later : Nat
  /-- What it returns in `step`. -/
  sampledAt : Nat
  /-- What `MonotonicTimeService::milliseconds()` returns. -/
  detectedAt : Nat
  found : W × Sequencer

variable (natives : SeqNatives W) (perform : SeqOp → W × Sequencer → W × Sequencer)
  (o : Occasion W)

def step : Option String × NoobWindowRiseThread × (W × Sequencer) :=
  match t.sample natives perform o.found with
  | (.error event, t, p) => (event, t, p)
  | (.ok level, t, p) =>
    let t := t.add level
    if t.early o.sampledAt then (none, t, p)
    else
      let (rise, t) := (t.complete o.sampledAt).detect
      if !rise then (none, t, p)
      else
        (some ("NRP/1 0 EVENT " ++ t.eventName ++ " time_ms=" ++ toString o.detectedAt ++
            " older=" ++ toString t.olderMean ++ " newer=" ++ toString t.newerMean),
          { t with program := t.program.publish (Int.bmod o.detectedAt (2 ^ 32)) }, p)

def tick : Option String × NoobWindowRiseThread × (W × Sequencer) :=
  if !t.program.due o.now then (none, t, o.found)
  else { t with program := t.program.rearm o.later }.step natives perform o

/-! ## Means -/

/-- The mean of some numbers, rounded to the nearest integer; halves are rounded up. -/
def mean (numbers : List Int) : Int := round ((numbers.sum : ℚ) / numbers.length)

theorem round_div (s : Int) {n : Nat} (hn : 0 < n) :
    round ((s : ℚ) / n) = (s + (n / 2 : Nat)) / n := by
  have hsum : (s : ℚ) / n + 1 / 2 = ((2 * s + n : Int) : ℚ) / ((2 * n : Nat) : ℚ) := by
    have : (n : ℚ) ≠ 0 := by positivity
    push_cast
    field_simp
  rw [round_eq, hsum, Rat.floor_intCast_div_natCast, Nat.cast_mul,
    ← Int.ediv_ediv_of_nonneg (by simp)]
  congr 1
  omega

/-- The mean of some numbers with the rounding of C: half their number is added to the sum, and the
quotient is cut off toward zero. -/
def levelMean (numbers : List Int) : Int :=
  (numbers.sum + (numbers.length / 2 : Nat)).tdiv numbers.length

/-- The numbers are so small that many of them can be added. -/
def Small (numbers : List Int) : Prop := ∀ x ∈ numbers, -400000000 ≤ x ∧ x ≤ 400000000
  deriving Decidable

variable {numbers : List Int}

theorem Small.sum (h : Small numbers) : -400000000 * numbers.length ≤ numbers.sum ∧
    numbers.sum ≤ 400000000 * numbers.length := by
  have hle := sum_le_card_nsmul numbers 400000000 fun x hx ↦ (h x hx).2
  have hge := card_nsmul_le_sum numbers (-400000000) fun x hx ↦ (h x hx).1
  rw [nsmul_eq_mul] at hle hge
  exact ⟨by omega, by omega⟩

theorem Small.levelMean (h : Small numbers) :
    -400000000 ≤ levelMean numbers ∧ levelMean numbers ≤ 400000000 := by
  obtain ⟨hlow, hhigh⟩ := h.sum
  have habs : (NoobWindowRiseThread.levelMean numbers).natAbs =
      (numbers.sum + (numbers.length / 2 : Nat)).natAbs / numbers.length :=
    Int.natAbs_tdiv _ _
  have hlt : (numbers.sum + (numbers.length / 2 : Nat)).natAbs / numbers.length < 400000001 := by
    rcases Nat.eq_zero_or_pos numbers.length with hzero | hpos
    · rw [hzero, Nat.div_zero]
      decide
    · rw [Nat.div_lt_iff_lt_mul hpos]
      omega
  exact ⟨by omega, by omega⟩

/-- The numbers are levels, none of them negative. -/
def Levels (numbers : List Int) : Prop := ∀ x ∈ numbers, 0 ≤ x ∧ x ≤ 400000000
  deriving Decidable

theorem Levels.small (h : Levels numbers) : Small numbers := fun x hx ↦
  ⟨by have := (h x hx).1; omega, (h x hx).2⟩

theorem Levels.mean_eq (h : Levels numbers) :
    levelMean numbers = mean numbers ∧ 0 ≤ mean numbers ∧ mean numbers ≤ 400000000 := by
  have hlow : 0 ≤ numbers.sum := sum_nonneg fun x hx ↦ (h x hx).1
  have hmean : levelMean numbers = mean numbers := by
    rcases Nat.eq_zero_or_pos numbers.length with hzero | hpos
    · simp [levelMean, mean, hzero]
    · rw [mean, round_div _ hpos, levelMean, Int.tdiv_eq_ediv_of_nonneg (by omega)]
  rw [← hmean]
  exact ⟨rfl, Int.tdiv_nonneg (by omega) (Int.natCast_nonneg _), h.small.levelMean.2⟩

/-! ## Runs -/

/-- A complete bucket: its samples, the means after it, whether they are a rise, from the tenth
bucket on, and whether that was an event. -/
structure Bucket where
  /-- The samples that were taken in it. -/
  samples : List Int
  olderMean : Int
  newerMean : Int
  /-- The comparison, if there is one. -/
  rose : Option Bool
  published : Bool
  deriving DecidableEq

/-- The bucket with these samples, which has just been completed. -/
def bucket (samples : List Int) : Bucket :=
  ⟨samples, t.olderMean, t.newerMean, if t.filledBuckets < 10 then none else some t.rose,
    t.detect.1⟩

/-- A thread, with the samples it has taken since the last complete bucket and the complete ones. -/
structure Watched where
  thread : NoobWindowRiseThread
  taken : List Int := []
  done : List Bucket := []

/-- A tick, with what it adds to the record. -/
def Watched.tick (s : Watched) : Watched :=
  let thread := (s.thread.tick natives perform o).2.1
  if !s.thread.program.due o.now then { s with thread }
  else
    match { s.thread with program := s.thread.program.rearm o.later }.sample natives perform
      o.found with
    | (.error _, _) => { s with thread }
    | (.ok level, t, _) =>
      let t := t.add level
      if t.early o.sampledAt then { s with thread, taken := s.taken ++ [level] }
      else ⟨thread, [], s.done ++ [(t.complete o.sampledAt).bucket (s.taken ++ [level])]⟩

theorem sample_eq (p : W × Sequencer) :
    ∃ source, (t.sample natives perform p).2.1 = { t with source := source } := by
  rw [sample]
  split
  · exact ⟨t.source, rfl⟩
  dsimp only
  split
  · exact ⟨_, rfl⟩
  split
  · exact ⟨_, rfl⟩
  · split <;> exact ⟨_, rfl⟩

/-- **What a tick does**: no sample is taken, or one that does not complete the bucket, or one that
does.  The base class's part and the source may have changed by then. -/
theorem Watched.tick_cases (s : Watched) :
    ∃ u program source, u = { s.thread with program, source } ∧
      (s.tick natives perform o = { s with thread := u } ∨
      (∃ level, s.tick natives perform o =
        { s with thread := u.add level, taken := s.taken ++ [level] }) ∨
      ∃ level v program, v = (u.add level).complete o.sampledAt ∧ s.tick natives perform o =
        ⟨{ v.detect.2 with program }, [], s.done ++ [v.bucket (s.taken ++ [level])]⟩) := by
  rw [tick, NoobWindowRiseThread.tick]
  split
  · exact ⟨_, s.thread.program, s.thread.source, rfl, .inl rfl⟩
  obtain ⟨source, hsource⟩ := sample_eq
    { s.thread with program := s.thread.program.rearm o.later }
    natives perform o.found
  rw [step]
  generalize { s.thread with program := s.thread.program.rearm o.later }.sample natives perform
    o.found = sampled at hsource ⊢
  obtain ⟨reading, u, p⟩ := sampled
  refine ⟨u, _, source, hsource, ?_⟩
  cases reading with
  | error event => exact .inl rfl
  | ok level =>
    dsimp only
    split
    · exact .inr (.inl ⟨level, rfl⟩)
    refine .inr (.inr ⟨level, (u.add level).complete o.sampledAt, ?_⟩)
    split
    · exact ⟨_, rfl, rfl⟩
    · exact ⟨_, rfl, rfl⟩

/-- The values of some buckets: of each of them, the mean of its samples. -/
def values (done : List Bucket) : List Int := done.map fun b ↦ mean b.samples

/-- The last ten of them. -/
def lastTen (numbers : List Int) : List Int := numbers.drop (numbers.length - 10)

/-- From the tenth bucket on, the means are those of the five oldest and of the five newest of the
last ten values. -/
def Means (done : List Bucket) : Prop :=
  ∀ before b after, done = before ++ b :: after → 9 ≤ before.length →
    b.olderMean = mean ((lastTen (values (before ++ [b]))).take 5) ∧
      b.newerMean = mean ((lastTen (values (before ++ [b]))).drop 5)

/-- The samples of a run are levels, and not too many for a bucket. -/
def Watched.Bounded (s : Watched) : Prop :=
  (Levels s.taken ∧ s.taken.length < 65536) ∧
    ∀ b ∈ s.done, Levels b.samples ∧ b.samples.length < 65536
  deriving Decidable

/-- The values the thread keeps of some buckets. -/
def kept (done : List Bucket) : List Int := done.map fun b ↦ levelMean b.samples

/-- `Means` with the rounding of C; and there is no event before the tenth bucket. -/
def Halves (done : List Bucket) : Prop :=
  ∀ before b after, done = before ++ b :: after → (b.published = true → 9 ≤ before.length) ∧
    (9 ≤ before.length → b.olderMean = levelMean ((lastTen (kept (before ++ [b]))).take 5) ∧
      b.newerMean = levelMean ((lastTen (kept (before ++ [b]))).drop 5))

/-- The samples of a run are small, and not too many for a bucket. -/
def Watched.Ranged (s : Watched) : Prop :=
  (Small s.taken ∧ s.taken.length < 65536) ∧
    ∀ b ∈ s.done, Small b.samples ∧ b.samples.length < 65536
  deriving Decidable

theorem Watched.Bounded.ranged {s : Watched} (h : s.Bounded) : s.Ranged :=
  ⟨⟨h.1.1.small, h.1.2⟩, fun b hb ↦ ⟨(h.2 b hb).1.small, (h.2 b hb).2⟩⟩

/-- The invariant of a run. -/
structure Follows (s : Watched) : Prop where
  sum : s.thread.bucketSum = s.taken.sum
  samples : s.thread.bucketSamples = s.taken.length
  filled : s.thread.filledBuckets = min s.done.length 10
  index : s.thread.writeIndex = Fin.ofNat 10 s.done.length
  ring : Ring.Holds s.thread.buckets (kept s.done)
  small : Small (kept s.done)
  halves : Halves s.done
  armed : s.thread.filledBuckets < 10 → s.thread.armed = true
  rests : Rearm.Follows Bucket.published (·.rose = some false) s.thread.rearmBuckets
    (s.thread.armed, s.thread.stableBuckets) s.done

variable {s : Watched}

theorem Follows.congr (h : Follows s) (program : NoobThreadProgram) (source : NoobProgramChannel) :
    Follows { s with thread := { s.thread with program, source } } := { h with }

theorem Follows.add (h : Follows s) {level : Int}
    (hsmall : Small (s.taken ++ [level])) (hfew : (s.taken ++ [level]).length < 65536) :
    Follows { s with thread := s.thread.add level, taken := s.taken ++ [level] } := by
  obtain ⟨hlow, hhigh⟩ := hsmall.sum
  rw [sum_append, sum_singleton] at hlow hhigh
  refine { h with sum := ?_, samples := ?_ }
  · show Int.bmod (s.thread.bucketSum + level) (2 ^ 64) = (s.taken ++ [level]).sum
    rw [h.sum, sum_append, sum_singleton]
    exact Int.bmod_eq_of_le (by omega) (by omega)
  show (s.thread.bucketSamples + 1) % 2 ^ 16 = (s.taken ++ [level]).length
  rw [length_append, length_singleton] at hfew ⊢
  rw [h.samples]
  exact Nat.mod_eq_of_lt hfew

theorem detect_eq : ∃ armed stableBuckets, t.detect.2 = { t with armed, stableBuckets } := by
  rw [detect]
  split
  · exact ⟨_, _, rfl⟩
  split
  · rw [settle]
    split <;> exact ⟨_, _, rfl⟩
  · split <;> exact ⟨_, _, rfl⟩

theorem rose_of_detect (h : t.detect.1 = true) : t.rose = true := by
  rw [detect] at h
  split at h
  · cases h
  split at h
  · cases h
  split at h
  · cases h
  · simpa using ‹¬ (!t.rose) = true›

theorem detect_step (samples : List Int) (h : t.filledBuckets < 10 → t.armed = true) :
    Rearm.Step Bucket.published (·.rose = some false) t.rearmBuckets (t.armed, t.stableBuckets)
        (t.bucket samples) (t.detect.2.armed, t.detect.2.stableBuckets) ∧
      (t.filledBuckets < 10 → t.detect.2.armed = true) := by
  by_cases hfilled : t.filledBuckets < 10
  · have hdetect : t.detect = (false, t) := if_pos hfilled
    rw [bucket, hdetect, h hfilled]
    exact ⟨.quiet rfl, fun _ ↦ rfl⟩
  refine ⟨?_, fun h ↦ absurd h hfilled⟩
  rw [bucket, if_neg hfilled, detect, if_neg hfilled]
  cases harmed : t.armed with
  | false =>
    have hstate : (t.settle.armed, t.settle.stableBuckets) =
        if t.rearmBuckets ≤ t.nextStable then (true, 0) else (false, t.nextStable) := by
      rw [settle]
      split
      · rfl
      · rw [harmed]
    simp only [Bool.not_false, if_true, hstate]
    refine .count rfl ?_
    rw [nextStable]
    split
    · exact .inl rfl
    · rename_i hnot
      exact .inr ⟨Nat.mod_le _ _, by simpa using hnot⟩
  | true =>
    cases hrose : t.rose with
    | false =>
      simp only [Bool.not_true, Bool.not_false, Bool.false_eq_true, if_false, if_true, harmed]
      exact .quiet rfl
    | true => exact .event rfl

/-- The mean of five buckets, as `updateMeans` computes it. -/
theorem half_mean {start : Fin 10} {l : List Int} (hlength : l.length = 5) (hsmall : Small l)
    (h : ∀ i x, l[i]? = some x → t.buckets (start + Fin.ofNat 10 i) = x) :
    (Int.bmod (t.halfSum start + 2) (2 ^ 32)).tdiv 5 = levelMean l := by
  have hsum : t.halfSum start = l.sum := by
    match l, hlength with
    | [a, b, c, d, e], _ =>
      simp only [Small, mem_cons, forall_eq_or_imp, not_mem_nil] at hsmall
      have h0 : t.buckets (start + 0) = a := h 0 a rfl
      have h1 : t.buckets (start + 1) = b := h 1 b rfl
      have h2 : t.buckets (start + 2) = c := h 2 c rfl
      have h3 : t.buckets (start + 3) = d := h 3 d rfl
      have h4 : t.buckets (start + 4) = e := h 4 e rfl
      simp only [halfSum, foldl_cons, foldl_nil, h0, h1, h2, h3, h4, Int.bmod_add_bmod,
        sum_cons, sum_nil]
      rw [bmod_of_isInt32 ⟨by omega, by omega⟩]
      omega
  obtain ⟨hlow, hhigh⟩ := hsmall.sum
  rw [hlength] at hlow hhigh
  rw [hsum, bmod_of_isInt32 ⟨by omega, by omega⟩, levelMean, hlength]
  rfl

theorem updateMeans_eq :
    ∃ olderMean newerMean, t.updateMeans = { t with olderMean, newerMean } ∧
      (¬ t.filledBuckets < 10 →
        olderMean = (Int.bmod (t.halfSum t.writeIndex + 2) (2 ^ 32)).tdiv 5 ∧
        newerMean = (Int.bmod (t.halfSum (t.writeIndex + 5) + 2) (2 ^ 32)).tdiv 5) := by
  rw [updateMeans]
  split
  · rename_i hfilled
    exact ⟨0, 0, rfl, fun h ↦ absurd hfilled h⟩
  · exact ⟨_, _, rfl, fun _ ↦ ⟨rfl, rfl⟩⟩

/-- Two threads that compare alike. -/
structure SameRule (u t : NoobWindowRiseThread) : Prop where
  rearmBuckets : u.rearmBuckets = t.rearmBuckets
  riseRatioPercent : u.riseRatioPercent = t.riseRatioPercent
  minimumNewLevel : u.minimumNewLevel = t.minimumNewLevel

theorem complete_spec (now : Nat) :
    let u := t.complete now
    (u.buckets = Function.update t.buckets t.writeIndex t.average ∧
      u.writeIndex = t.writeIndex + 1 ∧ u.bucketSum = 0 ∧ u.bucketSamples = 0) ∧
    (u.filledBuckets = if t.filledBuckets < 10 then t.filledBuckets + 1 else t.filledBuckets) ∧
    (u.armed = t.armed ∧ u.stableBuckets = t.stableBuckets ∧ u.SameRule t) ∧
    (¬ u.filledBuckets < 10 →
      u.olderMean = (Int.bmod (u.halfSum u.writeIndex + 2) (2 ^ 32)).tdiv 5 ∧
      u.newerMean = (Int.bmod (u.halfSum (u.writeIndex + 5) + 2) (2 ^ 32)).tdiv 5) := by
  obtain ⟨older, newer, hupdate, hhalves⟩ := updateMeans_eq
    { t with
      bucketSum := 0, bucketSamples := 0, bucketStartedAt := now
      buckets := Function.update t.buckets t.writeIndex t.average
      writeIndex := t.writeIndex + 1
      filledBuckets := if t.filledBuckets < 10 then t.filledBuckets + 1 else t.filledBuckets }
  intro u
  rw [show u = _ from hupdate]
  exact ⟨⟨rfl, rfl, rfl, rfl⟩, rfl, ⟨rfl, rfl, rfl, rfl, rfl⟩, hhalves⟩

/-- The means of a full ring are those of the two halves of the last ten values. -/
theorem means_of_holds {vs : List Int} (h : Ring.Holds t.buckets vs) (hten : 10 ≤ vs.length)
    (hsmall : Small vs) (hindex : t.writeIndex = Fin.ofNat 10 vs.length) :
    (Int.bmod (t.halfSum t.writeIndex + 2) (2 ^ 32)).tdiv 5 = levelMean ((lastTen vs).take 5) ∧
      (Int.bmod (t.halfSum (t.writeIndex + 5) + 2) (2 ^ 32)).tdiv 5 =
        levelMean ((lastTen vs).drop 5) := by
  have hplace (i j : Nat) : Fin.ofNat 10 i + Fin.ofNat 10 j = Fin.ofNat 10 (i + j) := by
    simp [Fin.ext_iff, Fin.val_add]
  refine ⟨half_mean t ?_ ?_ fun i x hx ↦ ?_, half_mean t ?_ ?_ fun i x hx ↦ ?_⟩
  · simp only [lastTen, length_take, length_drop]
    omega
  · exact fun x hx ↦ hsmall x (mem_of_mem_drop (mem_of_mem_take hx))
  · rw [getElem?_take] at hx
    split at hx
    · rw [hindex, hplace]
      exact h.get hten hx
    · cases hx
  · simp only [lastTen, length_drop]
    omega
  · exact fun x hx ↦ hsmall x (mem_of_mem_drop (mem_of_mem_drop hx))
  · rw [getElem?_drop] at hx
    rw [hindex, show (5 : Fin 10) = Fin.ofNat 10 5 from rfl, hplace, hplace, Nat.add_assoc]
    exact h.get hten hx

theorem Follows.complete (h : Follows s) (hsmall : Small s.taken)
    (hfew : s.taken.length < 65536) (hne : s.taken ≠ []) (now : Nat) (program : NoobThreadProgram) :
    Follows ⟨{ (s.thread.complete now).detect.2 with program }, [],
      s.done ++ [(s.thread.complete now).bucket s.taken]⟩ := by
  obtain ⟨hlow, hhigh⟩ := hsmall.levelMean
  have haverage : s.thread.average = levelMean s.taken := by
    have hpos := length_pos_of_ne_nil hne
    rw [average, h.samples, if_neg (by omega), h.sum]
    exact bmod_of_isInt32 ⟨by rw [← levelMean]; omega, by rw [← levelMean]; omega⟩
  obtain ⟨⟨hbuckets, hindex, hsum, hsamples⟩, hfilled, ⟨harmed, hstable, hrule⟩, hhalves⟩ :=
    s.thread.complete_spec now
  generalize s.thread.complete now = u at *
  have hlength : (kept s.done).length = s.done.length := length_map _
  have hkept : kept (s.done ++ [u.bucket s.taken]) = kept s.done ++ [levelMean s.taken] :=
    map_append
  have hring := h.ring.append (levelMean s.taken)
  rw [haverage, h.index, ← hlength] at hbuckets
  rw [← hbuckets, ← hkept] at hring
  have hsmall' : Small (kept (s.done ++ [u.bucket s.taken])) := by
    rw [hkept]
    exact forall_mem_append.mpr ⟨h.small, by simpa using ⟨hlow, hhigh⟩⟩
  have hindex' : u.writeIndex = Fin.ofNat 10 (s.done ++ [u.bucket s.taken]).length := by
    rw [hindex, h.index, length_append, length_singleton, Fin.ext_iff]
    simp [Fin.val_add]
  rw [h.filled] at hfilled
  obtain ⟨hstep, hkeep⟩ := u.detect_step s.taken fun hlt ↦ by
    rw [harmed]
    refine h.armed ?_
    rw [h.filled]
    split at hfilled <;> omega
  obtain ⟨armed, stable, hdetect⟩ := u.detect_eq
  rw [hdetect] at hstep hkeep ⊢
  refine ⟨hsum, hsamples, ?_, hindex', hring, hsmall', ?_, hkeep, ?_⟩
  · rw [hfilled, length_append, length_singleton]
    split <;> omega
  · intro before b after hsplit
    rcases Rearm.append_singleton_eq hsplit with ⟨rfl, rfl, -⟩ | ⟨after', -, hold⟩
    · refine ⟨fun hpublished ↦ ?_, fun hbefore ↦ ?_⟩
      · have hten : ¬ u.filledBuckets < 10 := fun hlt ↦ by
          have hdetect : u.detect = (false, u) := if_pos hlt
          simp [bucket, hdetect] at hpublished
        split at hfilled <;> omega
      have hcount : 10 ≤ (kept (s.done ++ [u.bucket s.taken])).length := by
        rw [hkept, length_append, length_singleton]
        omega
      obtain ⟨holder, hnewer⟩ := hhalves (by split at hfilled <;> omega)
      obtain ⟨holder', hnewer'⟩ := u.means_of_holds hring hcount hsmall'
        (hindex'.trans (congrArg _ (length_map _).symm))
      exact ⟨holder.trans holder', hnewer.trans hnewer'⟩
    · exact h.halves before b after' hold
  · rw [harmed, hstable, hrule.rearmBuckets] at hstep
    show Rearm.Follows _ _ u.rearmBuckets _ _
    rw [hrule.rearmBuckets]
    exact h.rests.step hstep

theorem Watched.ranged_of_append {level : Int} (hsmall : Small (s.taken ++ [level]))
    (hfew : (s.taken ++ [level]).length < 65536)
    (hdone : ∀ b ∈ s.done, Small b.samples ∧ b.samples.length < 65536) : s.Ranged := by
  rw [length_append] at hfew
  exact ⟨⟨fun x hx ↦ hsmall x (mem_append_left _ hx), by omega⟩, hdone⟩

/-- What a tick keeps: the rule; the invariant, if the samples are small; and that an event is a
rise by the rule. -/
theorem Watched.tick_keeps (s : Watched) :
    (s.tick natives perform o).thread.SameRule s.thread ∧
      ((s.Ranged → Follows s) → (s.tick natives perform o).Ranged →
        Follows (s.tick natives perform o)) ∧
      ∀ b ∈ (s.tick natives perform o).done, b ∈ s.done ∨ (b.published = true →
        s.thread.minimumNewLevel ≤ b.newerMean ∧
          b.olderMean * s.thread.riseRatioPercent ≤ b.newerMean * 100) := by
  obtain ⟨u, program, source, hu, htick | ⟨level, htick⟩ | ⟨level, v, program', hv, htick⟩⟩ :=
    s.tick_cases natives perform o
  · rw [htick, hu]
    exact ⟨⟨rfl, rfl, rfl⟩, fun h hranged ↦ (h hranged).congr program source, fun _ ↦ .inl⟩
  · rw [htick, hu]
    refine ⟨⟨rfl, rfl, rfl⟩, fun h hranged ↦ ?_, fun _ ↦ .inl⟩
    obtain ⟨hlevels, hfew⟩ := hranged.1
    have hold := h (ranged_of_append hlevels hfew hranged.2)
    exact (hold.congr program source).add hlevels hfew
  · have hrule : v.SameRule s.thread := by
      obtain ⟨h₁, h₂, h₃⟩ := ((u.add level).complete_spec o.sampledAt).2.2.1.2.2
      rw [hv]
      rw [hu] at h₁ h₂ h₃ ⊢
      exact ⟨h₁, h₂, h₃⟩
    rw [htick]
    refine ⟨?_, fun h hranged ↦ ?_, fun b hb ↦ ?_⟩
    · obtain ⟨armed, stable, hdetect⟩ := v.detect_eq
      rw [hdetect]
      exact ⟨hrule.1, hrule.2, hrule.3⟩
    · obtain ⟨hlevels, hfew⟩ := hranged.2 _ (mem_append_right _ mem_cons_self)
      have hold := h (ranged_of_append hlevels hfew fun b hb ↦
        hranged.2 b (mem_append_left _ hb))
      rw [hv, hu]
      exact ((hold.congr program source).add hlevels hfew).complete hlevels hfew (by simp) _ _
    · rcases mem_append.mp hb with hb | hb
      · exact .inl hb
      obtain rfl := mem_singleton.mp hb
      refine .inr fun hpublished ↦ ?_
      have hrose := v.rose_of_detect hpublished
      rw [rose, hrule.2, hrule.3] at hrose
      simpa [bucket] using hrose

variable (occasions : List (Occasion W))

/-- The run of some ticks. -/
def Watched.run (s : Watched) : Watched :=
  occasions.foldl (fun s o ↦ s.tick natives perform o) s

theorem Watched.run_keeps (s : Watched) :
    (s.run natives perform occasions).thread.SameRule s.thread ∧
      ((s.Ranged → Follows s) → (s.run natives perform occasions).Ranged →
        Follows (s.run natives perform occasions)) ∧
      ∀ b ∈ (s.run natives perform occasions).done, b ∈ s.done ∨ (b.published = true →
        s.thread.minimumNewLevel ≤ b.newerMean ∧
          b.olderMean * s.thread.riseRatioPercent ≤ b.newerMean * 100) := by
  induction occasions generalizing s with
  | nil => exact ⟨⟨rfl, rfl, rfl⟩, id, fun _ ↦ .inl⟩
  | cons o occasions ih =>
    obtain ⟨hrule, hfollows, hrises⟩ := s.tick_keeps natives perform o
    obtain ⟨hrule', hfollows', hrises'⟩ := ih (s.tick natives perform o)
    refine ⟨⟨hrule'.1.trans hrule.1, hrule'.2.trans hrule.2, hrule'.3.trans hrule.3⟩,
      fun h ↦ hfollows' (hfollows h), fun b hb ↦ ?_⟩
    rcases hrises' b hb with hb | hb
    · exact hrises b hb
    · rw [hrule.2, hrule.3] at hb
      exact .inr hb

variable {arguments : List Int} {now : Nat}

theorem call_spec (hcall : (t.call arguments now).1.ok = true) :
    Follows ⟨(t.call arguments now).2, [], []⟩ ∧
      (t.call arguments now).2.rearmBuckets = t.rearmBuckets ∧
      (101 ≤ t.riseRatioPercent → 101 ≤ (t.call arguments now).2.riseRatioPercent) ∧
      (0 ≤ t.minimumNewLevel → 0 ≤ (t.call arguments now).2.minimumNewLevel) ∧
      (t.call arguments now).2.minimumNewLevel = arguments[1]?.getD t.minimumNewLevel := by
  rw [call] at hcall ⊢
  split at hcall
  · cases hcall
  rename_i hvalid
  rw [if_neg hvalid]
  refine ⟨⟨rfl, rfl, rfl, rfl, Ring.holds_nil, nofun, ?_, fun _ ↦ rfl, Rearm.follows_nil _⟩,
    rfl, fun hratio ↦ ?_, fun hminimum ↦ ?_, rfl⟩
  · exact fun before b after hsplit ↦ absurd hsplit (by simp)
  · cases h : arguments[0]? with
    | none => simpa [h] using hratio
    | some ratio =>
      simp only [h, Option.any_some, Bool.or_eq_true, decide_eq_true_eq] at hvalid
      simp only [Option.map_some, Option.getD_some]
      omega
  · cases h : arguments[1]? with
    | none => simpa [h] using hminimum
    | some minimum =>
      simp only [h, Option.any_some, Bool.or_eq_true, decide_eq_true_eq] at hvalid
      simp only [Option.getD_some]
      omega

/-- If the samples are levels, the values are the means of the samples, and the means those of the
values. -/
theorem Halves.means {done : List Bucket} (h : Halves done)
    (hlevels : ∀ b ∈ done, Levels b.samples) : Means done := by
  intro before b after hsplit hbefore
  have hmem : ∀ c ∈ before ++ [b], Levels c.samples := fun c hc ↦ hlevels c (by
    rw [hsplit, append_cons]
    exact mem_append_left _ hc)
  have hkept : kept (before ++ [b]) = values (before ++ [b]) :=
    map_congr_left fun c hc ↦ (hmem c hc).mean_eq.1
  have hvalues : Levels (lastTen (values (before ++ [b]))) := fun x hx ↦ by
    obtain ⟨c, hc, rfl⟩ := mem_map.mp (mem_of_mem_drop hx)
    exact (hmem c hc).mean_eq.2
  obtain ⟨holder, hnewer⟩ := (h before b after hsplit).2 hbefore
  rw [hkept] at holder hnewer
  have htake : Levels ((lastTen (values (before ++ [b]))).take 5) := fun x hx ↦
    hvalues x (mem_of_mem_take hx)
  have hdrop : Levels ((lastTen (values (before ++ [b]))).drop 5) := fun x hx ↦
    hvalues x (mem_of_mem_drop hx)
  exact ⟨holder.trans htake.mean_eq.1, hnewer.trans hdrop.mean_eq.1⟩

/-- A thread that waits for two comparisons, and whose buckets are as long as its interval. -/
def listener : NoobWindowRiseThread :=
  ⟨{ intervalMs := 100 }, true, {}, 5, "RISE", 100, 150, 0, 2, fun _ ↦ 0, 0, 0, 0, 0, 0, 0, 0,
    true, 0⟩

/-- Its ticks find these levels. -/
def hearings (levels : List Int) : List (Occasion Int) :=
  levels.mapIdx fun index level ↦
    ⟨100 * (index + 1), 100 * (index + 1), 100 * (index + 1), 100 * (index + 1), (level, {})⟩

/-- The run of the thread on these levels. -/
def heard (levels : List Int) : Watched :=
  Watched.run NoobChangeThread.gauge (fun op p ↦ (p.1, op.effect p.2)) (hearings levels)
    ⟨(listener.call [] 0).2, [], []⟩

/-- The samples of the last ten of these buckets come to nothing: in each half, the means of the
five buckets add up to so little that it is rounded to zero. -/
def Silent (done : List Bucket) : Prop :=
  (-7 < ((lastTen (kept done)).take 5).sum ∧ ((lastTen (kept done)).take 5).sum < 3) ∧
    -7 < ((lastTen (kept done)).drop 5).sum ∧ ((lastTen (kept done)).drop 5).sum < 3
  deriving Decidable

theorem levelMean_eq_zero_iff (hlength : numbers.length = 5) :
    levelMean numbers = 0 ↔ -7 < numbers.sum ∧ numbers.sum < 3 := by
  have habs : (levelMean numbers).natAbs = (numbers.sum + (5 / 2 : Nat)).natAbs / 5 := by
    rw [levelMean, hlength]
    exact Int.natAbs_tdiv _ _
  omega

/-- The two means are both zero when the buckets are silent. -/
theorem Halves.silent_iff {done before after : List Bucket} {b : Bucket} (h : Halves done)
    (hsplit : done = before ++ b :: after) (hpublished : b.published = true) :
    Silent (before ++ [b]) ↔ b.olderMean = 0 ∧ b.newerMean = 0 := by
  obtain ⟨htenth, hmeans⟩ := h before b after hsplit
  have hbefore := htenth hpublished
  obtain ⟨holder, hnewer⟩ := hmeans hbefore
  have hlength : (lastTen (kept (before ++ [b]))).length = 10 := by
    simp only [lastTen, kept, length_drop, length_map, length_append, length_singleton]
    omega
  rw [holder, hnewer, levelMean_eq_zero_iff (by rw [length_take, hlength]; rfl),
    levelMean_eq_zero_iff (by rw [length_drop, hlength])]
  rfl

theorem rise_of_event {older newer minimum : Int} {ratio : Nat} (hratio : 101 ≤ ratio)
    (hminimum : 0 ≤ minimum) (hlevel : minimum ≤ newer) (hrose : older * ratio ≤ newer * 100) :
    older < newer ↔ ¬ (older = 0 ∧ newer = 0) := by
  refine ⟨fun hlt ↦ by omega, fun hzero ↦ ?_⟩
  by_contra hle
  have hscaled : older * 101 ≤ older * ratio :=
    Int.mul_le_mul_of_nonneg_left (by exact_mod_cast hratio) (by omega)
  omega

end NoobWindowRiseThread

end Noobia
