import Noobia.Lib.Clock
import Noobia.Native.Channel

/-!
# Threads, and the thread that samples a native function

A `NoobThreadProgram` is a native function that, once called, keeps doing something every
`intervalMs` and queues what it finds.  `NoobSamplingThreadProgram` is the one that does nothing but
call another native function, its source, through a channel.  It can be started in three ways: with
numbers (`call`), with a text for its source (`callText`), and with both (`callMixed`).

`onStart` is the hook by which a thread prepares itself when it is started.  The hook of the
sampling thread only writes fields of its own, so it commutes with what the base class's `call` does
around it.
-/

namespace Noobia

/-- `NoobThreadProgram`. -/
structure NoobThreadProgram where
  /-- `intervalMs_`, a `uint32_t`. -/
  intervalMs : Nat
  /-- `nextAt_`, a `uint32_t`. -/
  nextAt : Nat := 0
  running : Bool := false
  results : NoobRecordQueue := {}
  haveLastPopped : Bool := false
  /-- `channelBusy_[0]`. -/
  channelBusy : Bool := false
  deriving DecidableEq

namespace NoobThreadProgram

/-- `NoobThreadProgram::call`, around the hook, with `now` what `millis()` returns. -/
def call (t : NoobThreadProgram) (arguments : List Int) (now : Nat) :
    NativeResult × NoobThreadProgram :=
  if 1 < arguments.length || arguments[0]?.any (· < 1) then (.fail "usage: [interval_ms]", t) else
  let intervalMs := (arguments[0]?.map Int.toNat).getD t.intervalMs
  (⟨true, 1, "type=thread running=1 interval_ms=" ++ toString intervalMs, .empty⟩,
    { t with
      intervalMs := intervalMs
      results := t.results.clear
      haveLastPopped := false
      running := true
      channelBusy := true
      nextAt := now })

/-- `NoobThreadProgram::stop`.  No thread has a hook for it. -/
def stop (t : NoobThreadProgram) : NativeResult × NoobThreadProgram :=
  (⟨true, 0, "type=thread running=0 queued=" ++ toString t.results.size, .empty⟩,
    { t with running := false, channelBusy := false })

/-- `publish`, for a number. -/
def publish (t : NoobThreadProgram) (value : Int) : NoobThreadProgram :=
  { t with results := t.results.pushValue value }

/-- Whether `tick` takes a step, at the clock reading `now`. -/
def due (t : NoobThreadProgram) (now : Nat) : Bool := t.running && !Clock.before now t.nextAt

/-- What `tick` does before the step.  It reads the clock once more for that. -/
def rearm (t : NoobThreadProgram) (now : Nat) : NoobThreadProgram :=
  { t with nextAt := (now + t.intervalMs) % 2 ^ 32 }

end NoobThreadProgram

/-- `NoobSamplingThreadProgram`. -/
structure NoobSamplingThread where
  /-- The base class's part. -/
  program : NoobThreadProgram
  source : NoobProgramChannel := {}
  /-- `sourceFunctionId_`, a `uint16_t`. -/
  sourceFunctionId : Nat
  /-- `durationMs_`, a `uint32_t`. -/
  durationMs : Nat
  /-- `startedAt_`, a `uint32_t`. -/
  startedAt : Nat := 0
  /-- `sourceArguments_[0 .. sourceArgumentCount_)`. -/
  sourceArguments : List Int
  /-- `MAX_SOURCE_ARGUMENTS` is four, and the constructor keeps to it. -/
  sourceArguments_le : sourceArguments.length ≤ 4
  sourceAscii : Bytes
  deriving DecidableEq

namespace NoobSamplingThread

/-- The constructor, which gives a source with too many arguments none at all. -/
def make (sourceFunctionId intervalMs durationMs : Nat) (sourceArguments : List Int)
    (sourceAscii : Bytes) : NoobSamplingThread where
  program := { intervalMs := intervalMs }
  sourceFunctionId := sourceFunctionId
  durationMs := durationMs
  sourceArguments := if sourceArguments.length ≤ 4 then sourceArguments else []
  sourceArguments_le := by split <;> simp_all
  sourceAscii := sourceAscii

/-- Both ways of passing numbers check them alike: a duration, and an interval after it. -/
def validArguments (arguments : List Int) : Bool :=
  arguments.length ≤ 2 && arguments[0]?.all (fun duration ↦ 0 ≤ duration && duration ≤ 3600000) &&
    arguments[1]?.all (fun interval ↦ 50 ≤ interval && interval ≤ 60000)

/-- `source_.configure(sourceFunctionId_, sourceArguments_, sourceArgumentCount_, ascii)`. -/
def configureSource (t : NoobSamplingThread) (ascii : Bytes) : Option NoobProgramChannel :=
  t.source.configure t.sourceFunctionId t.sourceArguments ascii

/-- `onStart`.  A text that cannot be configured leaves the source as it was. -/
def onStart (t : NoobSamplingThread) (now : Nat) : NoobSamplingThread :=
  { t with startedAt := now, source := (t.configureSource t.sourceAscii).getD t.source }

/-- What `call` does with numbers it has accepted. -/
def restart (t : NoobSamplingThread) (arguments : List Int) (now : Nat) :
    NativeResult × NoobSamplingThread :=
  let durationMs := (arguments[0]?.map Int.toNat).getD t.durationMs
  let intervalMs := (arguments[1]?.map Int.toNat).getD t.program.intervalMs
  let (result, program) := { t.program with intervalMs := intervalMs }.call [] now
  ({ result with detail := result.detail ++ " duration_ms=" ++ toString durationMs },
    { t.onStart now with program := program, durationMs := durationMs })

def call (t : NoobSamplingThread) (arguments : List Int) (now : Nat) :
    NativeResult × NoobSamplingThread :=
  if !validArguments arguments then
    (.fail "usage: [duration_ms(0..3600000)] [interval_ms(50..60000)]", t)
  else t.restart arguments now

def callMixed (t : NoobSamplingThread) (arguments : List Int) (ascii : Bytes) (now : Nat) :
    NativeResult × NoobSamplingThread :=
  if !validArguments arguments then (.fail "invalid thread duration/interval", t) else
  match t.configureSource ascii with
  | none => (.fail "invalid source ASCII", t)
  | some source => { t with source := source, sourceAscii := ascii }.call arguments now

def callText (t : NoobSamplingThread) (ascii : Bytes) (now : Nat) :
    NativeResult × NoobSamplingThread :=
  t.callMixed [] ascii now

/-! ## Starting with numbers, with and without an empty text -/

variable (t : NoobSamplingThread) {arguments : List Int} {now : Nat}

/-- Without a text the source can always be configured. -/
theorem configureSource_nil :
    t.configureSource [] = some
      { t.source with
        functionId := t.sourceFunctionId
        arguments := t.sourceArguments
        ascii := []
        results := t.source.results.clear
        lastOk := true
        lastDetail := "" } := by
  have h := t.sourceArguments_le
  rw [configureSource, NoobProgramChannel.configure, if_neg, if_neg]
  · simp
  · simp only [NoobProgramChannel.maxArguments, List.length_nil, not_or]
    omega

theorem call_of_valid (h : validArguments arguments = true) :
    t.call arguments now = t.restart arguments now := by
  rw [call, h]
  rfl

theorem call_sourceAscii (h : validArguments arguments = true) :
    (t.call arguments now).2.sourceAscii = t.sourceAscii := by
  rw [t.call_of_valid h]
  rfl

/-- An empty text makes the thread forget the text it had. -/
theorem callMixed_nil_sourceAscii (h : validArguments arguments = true) :
    (t.callMixed arguments [] now).2.sourceAscii = [] := by
  rw [callMixed, h, configureSource_nil]
  exact call_sourceAscii _ h

/-- Configuring the source before a start that configures it again changes nothing. -/
theorem callMixed_nil_of_sourceAscii (h : validArguments arguments = true)
    (hascii : t.sourceAscii = []) : t.callMixed arguments [] now = t.call arguments now := by
  rw [callMixed, h, configureSource_nil]
  simp only [Bool.not_true, Bool.false_eq_true, if_false, call_of_valid _ h, restart, onStart,
    hascii, configureSource_nil, Option.getD_some, NoobRecordQueue.clear]

/-- **When an empty text goes unnoticed.**  The two ways of passing numbers refuse bad ones in
different words, and an empty text replaces the text the thread was given before. -/
theorem callMixed_nil_eq_call_iff (now : Nat) :
    t.callMixed arguments [] now = t.call arguments now ↔
      validArguments arguments = true ∧ t.sourceAscii = [] := by
  constructor
  · intro h
    cases hvalid : validArguments arguments with
    | false =>
      simp [callMixed, call, hvalid, NativeResult.fail] at h
    | true =>
      refine ⟨rfl, ?_⟩
      rw [← t.call_sourceAscii hvalid, ← h, t.callMixed_nil_sourceAscii hvalid]
  · rintro ⟨hvalid, hascii⟩
    exact t.callMixed_nil_of_sourceAscii hvalid hascii

end NoobSamplingThread

end Noobia
