import Noobia.Lib.Clock
import Noobia.Lib.Proc
import Noobia.Lib.Script
import Noobia.Native.Channel

/-!
# The sequencer

Four tracks play bit patterns: every `intervalMs` an active track calls its native function with the
next bit of its pattern, until the pattern is through or, in a repeating sequence, for ever.  This
file is `SequenceService.cpp` from top to bottom: the operations that configure, start, stop and
read the sequencer, and the `tick` that plays it.

The static variables of the source are the fields of `Sequencer`, and every operation is a function
on it that returns its `NativeResult` beside the new state.

The native function a tick calls may use all of these operations itself, `tick` included, before it
returns, and the tick then carries on with whatever it finds.  A native function is therefore a
`Script` over `SeqOp`, and `SeqOp.perform` says what its calls do.
-/

namespace Noobia

open List

/-! ## State -/

/-- One of the `MAX_TRACKS` slots. -/
abbrev Slot := Fin 4

def maxTracks : Nat := 4

def maxBits : Nat := 64

def maxFixedArguments : Nat := 7

def maxIntervalMs : Nat := 60000

/-- `Track`. -/
structure Track where
  /-- The track has been given a pattern. -/
  configured : Bool := false
  /-- The track is being played. -/
  active : Bool := false
  /-- The time between two calls, a `uint32_t`. -/
  intervalMs : Nat := 0
  /-- The clock reading at which the next call is due, a `uint32_t`. -/
  nextAt : Nat := 0
  /-- The pattern, in the characters `0` and `1`; zero bytes fill the rest of the array. -/
  bits : Bytes := []
  /-- The length of the pattern, a `uint8_t`. -/
  bitCount : Nat := 0
  /-- The next bit to play, a `uint8_t`. -/
  position : Nat := 0
  /-- The function to call and what it returned. -/
  channel : NoobProgramChannel := {}
  /-- Whether the function is given the bit after its fixed arguments. -/
  appendInput : Bool := true
  deriving DecidableEq

/-- The bit `tick` plays next: `bits[position] == '1'`. -/
def Track.input (track : Track) : Int := if track.bits[track.position]? = some 49 then 1 else 0

/-- The bit just played was the last one. -/
def Track.ends (track : Track) (repeating : Bool) : Bool :=
  !((track.position + 1) % 256 < track.bitCount) && !repeating

/-- What `tick` does to a track after a call that went well. -/
def Track.advance (now : Nat) (repeating : Bool) (track : Track) : Track :=
  let position := (track.position + 1) % 256
  let track := { track with nextAt := (now + track.intervalMs) % 2 ^ 32 }
  if position < track.bitCount then { track with position }
  else if repeating then { track with position := 0 }
  else { track with position, active := false }

/-- The static variables of the service. -/
structure Sequencer where
  /-- `nativeRegistry`, as far as configuring looks at it. -/
  nativeRegistry : List NativeRegistry.Signature := []
  tracks : Slot → Track := fun _ ↦ {}
  channelBusy : Slot → Bool := fun _ ↦ false
  running : Bool := false
  repeating : Bool := false
  lastPopped : Slot → NoobRecord := fun _ ↦ .empty
  haveLastPopped : Slot → Bool := fun _ ↦ false
  deriving DecidableEq

/-- `ChannelDefinition`: one channel of a compiled sequence.  A null `bits` pointer is an empty
list. -/
structure ChannelDefinition where
  functionId : Nat
  intervalMs : Nat
  /-- The pattern, one byte per bit; `bitCount` is its length. -/
  bits : Bytes
  /-- The fixed arguments; `argumentCount` is their number. -/
  arguments : List Int := []
  /-- The fixed text, unless the pointer is null. -/
  ascii : Option Bytes := some []
  /-- Whether the function is given the bit. -/
  appendInput : Bool := true
  deriving DecidableEq

/-! ## Reading a text command -/

/-- `tokenAt`.  The text that remains stands for the position in it; the token comes first and what
follows it second. -/
def tokenAt (text : Bytes) : Bytes × Bytes :=
  let text := text.dropWhile (· = 32)
  (text.takeWhile (· ≠ 32), text.dropWhile (· ≠ 32))

theorem tokenAt_word {word : Bytes} (hword : ∀ b ∈ word, b ≠ 32) (hne : word ≠ []) {rest : Bytes}
    (hrest : rest.head?.all (· = 32)) : tokenAt (word ++ rest) = (word, rest) := by
  have hstart : (word ++ rest).dropWhile (· = 32) = word ++ rest := by
    obtain ⟨b, word, rfl⟩ := exists_cons_of_ne_nil hne
    exact dropWhile_cons_of_neg (by simpa using hword b (mem_cons_self ..))
  have hall : ∀ b ∈ word, (decide (b ≠ 32)) = true := fun b hb ↦ decide_eq_true (hword b hb)
  have hnone : rest.takeWhile (· ≠ 32) = [] ∧ rest.dropWhile (· ≠ 32) = rest := by
    cases rest with
    | nil => exact ⟨rfl, rfl⟩
    | cons b rest =>
      have hb : b = 32 := by simpa using hrest
      exact ⟨takeWhile_cons_of_neg (by simp [hb]), dropWhile_cons_of_neg (by simp [hb])⟩
  rw [tokenAt, hstart, takeWhile_append_of_pos hall, dropWhile_append_of_pos hall,
    hnone.1, hnone.2, append_nil]

theorem tokenAt_space (text : Bytes) : tokenAt (32 :: text) = tokenAt text := by
  rw [tokenAt, tokenAt, dropWhile_cons_of_pos (by decide)]

theorem exists_spaces (text : Bytes) :
    ∃ spaces, text = List.replicate spaces 32 ++ text.dropWhile (· = 32) := by
  refine ⟨(text.takeWhile (· = 32)).length, ?_⟩
  have hspaces : text.takeWhile (· = 32) = List.replicate (text.takeWhile (· = 32)).length 32 :=
    eq_replicate_of_mem fun b hb ↦ by simpa using mem_takeWhile_imp hb
  rw [← hspaces, takeWhile_append_dropWhile]

/-- What a token is, and what is before and behind it. -/
theorem exists_tokenAt (text : Bytes) :
    ∃ spaces, text = List.replicate spaces 32 ++ ((tokenAt text).1 ++ (tokenAt text).2) ∧
      (∀ b ∈ (tokenAt text).1, b ≠ 32) ∧ (tokenAt text).2.head?.all (· = 32) ∧
      ((tokenAt text).1 = [] → (tokenAt text).2 = []) := by
  obtain ⟨spaces, hspaces⟩ := exists_spaces text
  refine ⟨spaces, ?_, ?_, ?_, ?_⟩
  · rw [tokenAt, takeWhile_append_dropWhile]
    exact hspaces
  · intro b hb
    simpa using mem_takeWhile_imp hb
  · have h := head?_dropWhile_not (· ≠ (32 : UInt8)) (text.dropWhile (· = 32))
    rw [tokenAt]
    revert h
    cases (text.dropWhile (· = 32)).dropWhile (· ≠ 32) with
    | nil | cons b rest => simp
  · rw [tokenAt]
    have h := head?_dropWhile_not (· = (32 : UInt8)) text
    revert h
    cases text.dropWhile (· = 32) with
    | nil => simp
    | cons b rest => simp +contextual

/-- The digits of `parseInteger`, whose value so far must stay within an `int32_t`. -/
def parseDigits (negative : Bool) (parsed : Nat) : Bytes → Option Nat
  | [] => some parsed
  | digit :: rest =>
    if !Bytes.isDigit digit then none
    else
      let parsed := parsed * 10 + (digit.toNat - 48)
      if (if negative then 2 ^ 31 else 2 ^ 31 - 1) < parsed then none
      else parseDigits negative parsed rest

def parseInteger (token : Bytes) : Option Int :=
  match token with
  | [] => none
  | 45 :: [] => none
  | 45 :: digits => (parseDigits true 0 digits).map fun (n : Nat) ↦ -(n : Int)
  | digits => (parseDigits false 0 digits).map fun (n : Nat) ↦ (n : Int)

/-- The loop of `set` over the fixed arguments, with room for `room` more. -/
def parseArguments : Nat → Bytes → Except String (List Int)
  | _, [] => .ok []
  | 0, _ => .error "at most 7 fixed arguments"
  | room + 1, text =>
    match parseInteger (tokenAt text).1 with
    | none => .error "arguments must be integers"
    | some value => (parseArguments room (tokenAt text).2).map (value :: ·)

/-- A number that is to name one of the four slots. -/
def slot? (value : Int) : Option Slot :=
  if h : 0 ≤ value ∧ value < 4 then some ⟨value.toNat, by omega⟩ else none

/-- A digit of a pattern, packed or compiled, as it stands in a track. -/
def bitChar (bit : Bool) : UInt8 := if bit then 49 else 48

/-- The pattern in the low `bitCount` bits of a word, its first bit highest. -/
def unpackBits (packed bitCount : Nat) : Bytes :=
  (List.range bitCount).map fun index ↦ bitChar (packed.testBit (bitCount - index - 1))

namespace Sequencer

variable (s : Sequencer)

/-! ## Reporting -/

def configuredCount : Nat := (List.finRange 4).countP fun slot ↦ (s.tracks slot).configured

def activeCount : Nat := (List.finRange 4).countP fun slot ↦ (s.tracks slot).active

def stateDetail : String :=
  "running=" ++ (if s.running then "1" else "0") ++ " repeat=" ++ (if s.repeating then "1" else "0")
    ++ " configured=" ++ toString s.configuredCount ++ " active=" ++ toString s.activeCount
    ++ " channel_busy="
    ++ ",".intercalate ((List.finRange 4).map fun slot ↦ if s.channelBusy slot then "1" else "0")
    ++ " positions="
    ++ ",".intercalate ((List.finRange 4).map fun slot ↦
      if (s.tracks slot).configured then
        toString (s.tracks slot).position ++ "/" ++ toString (s.tracks slot).bitCount
      else "-")

/-- `tracks[slot] = track`. -/
def setTrack (slot : Slot) (track : Track) : Sequencer :=
  { s with tracks := Function.update s.tracks slot track }

/-- Write to the channel of a track. -/
def updateChannel (slot : Slot) (f : NoobProgramChannel → NoobProgramChannel) : Sequencer :=
  s.setTrack slot { s.tracks slot with channel := f (s.tracks slot).channel }

@[simp] theorem setTrack_tracks (slot : Slot) (track : Track) :
    (s.setTrack slot track).tracks = Function.update s.tracks slot track := rfl

@[simp] theorem setTrack_repeating (slot : Slot) (track : Track) :
    (s.setTrack slot track).repeating = s.repeating := rfl

def stopAll : Sequencer :=
  { s with
    running := false
    tracks := fun slot ↦ { s.tracks slot with active := false }
    channelBusy := fun _ ↦ false }

/-- `begin`, for the functions registered by then. -/
def begin (nativeRegistry : List NativeRegistry.Signature) : Sequencer :=
  { s with
    nativeRegistry := nativeRegistry
    running := false
    tracks := fun _ ↦ {}
    channelBusy := fun _ ↦ false
    haveLastPopped := fun _ ↦ false }

/-! ## Configuring -/

/-- `nativeRegistry->find(id)`. -/
def find (id : Nat) : Option NativeRegistry.Signature :=
  s.nativeRegistry.find? fun entry ↦ entry.id = id

/-- `nativeRegistry->find(name)`. -/
def findName (name : Bytes) : Option NativeRegistry.Signature :=
  s.nativeRegistry.find? fun entry ↦ name.equalsIgnoreCase entry.name

/-- `set` takes only functions on numbers. -/
def numericEntry : Option NativeRegistry.Signature → Except String NativeRegistry.Signature
  | none => .error "function must be a numeric native function"
  | some entry =>
    if entry.acceptsNumbers then .ok entry
    else .error "function must be a numeric native function"

/-- The function a text command selects, by number or by name. -/
def select (selector : Bytes) : Except String NativeRegistry.Signature :=
  match parseInteger selector with
  | some id =>
    if id < 0 ∨ 65535 < id then .error "function ID must be 0..65535"
    else numericEntry (s.find id.toNat)
  | none => numericEntry (s.findName selector)

/-- `set`: a track from a line of text. -/
def set (arguments : Bytes) : NativeResult × Sequencer :=
  if s.running then (.fail "stop sequence before editing", s) else
  let (slotToken, rest) := tokenAt arguments
  let (intervalToken, rest) := tokenAt rest
  let (selector, rest) := tokenAt rest
  let (bits, rest) := tokenAt rest
  match (parseInteger slotToken).bind slot? with
  | none => (.fail "slot must be 0..3", s)
  | some slot =>
  let interval := (parseInteger intervalToken).getD 0
  if interval < 1 ∨ (maxIntervalMs : Int) < interval then
    (.fail "interval must be 1..60000 ms", s) else
  if selector.isEmpty ∨ bits.isEmpty ∨ maxBits < bits.length then
    (.fail "usage: slot interval_ms function bits [args...]", s) else
  if !bits.all (fun bit ↦ bit = 48 || bit = 49) then (.fail "bits must contain only 0 or 1", s) else
  match s.select selector with
  | .error detail => (.fail detail, s)
  | .ok entry =>
  match parseArguments maxFixedArguments rest with
  | .error detail => (.fail detail, s)
  | .ok fixedArguments =>
  let channel := (NoobProgramChannel.configure {} entry.id [] []).getD {}
  let channel := (channel.configure entry.id fixedArguments []).getD channel
  (⟨true, slot.val,
      "slot=" ++ toString slot.val ++ " interval_ms=" ++ toString interval ++ " function="
        ++ toString entry.id ++ " bits=" ++ bits.render, .empty⟩,
    s.setTrack slot
      { configured := true
        intervalMs := interval.toNat
        bits := bits
        bitCount := bits.length
        channel := channel })

/-- `setNumeric` from the count of the fixed arguments on. -/
def setPacked (slot : Slot) (interval functionId bitCount packed : Int)
    (fixedArguments : List Int) (ascii : Bytes) (appendInput : Bool) : NativeResult × Sequencer :=
  if maxFixedArguments < fixedArguments.length then (.fail "at most 7 fixed arguments", s) else
  match s.find functionId.toNat with
  | none => (.fail "function must be registered", s)
  | some entry =>
  if !entry.acceptsNumbers && !entry.acceptsText then (.fail "function must be registered", s) else
  match NoobProgramChannel.configure {} entry.id fixedArguments ascii with
  | none => (.fail "invalid channel arguments", s)
  | some channel =>
  let bits := unpackBits (packed % 2 ^ 32).toNat bitCount.toNat
  (⟨true, slot.val,
      "slot=" ++ toString slot.val ++ " interval_ms=" ++ toString interval ++ " function="
        ++ toString functionId ++ " bits=" ++ bits.render, .empty⟩,
    s.setTrack slot
      { configured := true
        intervalMs := interval.toNat
        bits := bits
        bitCount := bitCount.toNat
        channel := channel
        appendInput := appendInput })

/-- `setNumeric`: a track from numbers, its pattern packed into one of them. -/
def setNumeric (arguments : List Int) (ascii : Bytes) (appendInput : Bool) :
    NativeResult × Sequencer :=
  if s.running then (.fail "stop sequence before editing", s) else
  match arguments with
  | slot :: interval :: functionId :: bitCount :: packed :: fixedArguments =>
    match slot? slot with
    | none => (.fail "slot must be 0..3", s)
    | some slot =>
    if interval < 1 ∨ (maxIntervalMs : Int) < interval then
      (.fail "interval must be 1..60000 ms", s) else
    if functionId < 0 ∨ 65535 < functionId then (.fail "function ID must be 0..65535", s) else
    if bitCount < 1 ∨ 32 < bitCount then (.fail "VM packed pattern must contain 1..32 bits", s) else
    s.setPacked slot interval functionId bitCount packed fixedArguments ascii appendInput
  | _ =>
    (.fail "usage: slot interval_ms function_id bit_count packed_bits [args...]", s)

/-- The usage message of `setMixed`. -/
def mixedUsage : String :=
  "usage: slot interval_ms function_id bit_count packed_bits append_bit(0|1) [args...] ASCII"

/-- `setMixed`: as `setNumeric`, with the append flag between the pattern and the arguments. -/
def setMixed (arguments : List Int) (ascii : Bytes) : NativeResult × Sequencer :=
  if arguments.length < 6 ∨ 13 < arguments.length ∨
      (arguments[5]? ≠ some 0 ∧ arguments[5]? ≠ some 1) then (.fail mixedUsage, s)
  else
    s.setNumeric (arguments.take 5 ++ arguments.drop 6) ascii (decide (arguments[5]? ≠ some 0))

/-- The track `load` makes of a channel, or what is wrong with it. -/
def loadChannel (source : ChannelDefinition) : Except String Track :=
  if source.bits.isEmpty ∨ maxBits < source.bits.length ∨ source.intervalMs = 0 ∨
      maxIntervalMs < source.intervalMs ∨ maxFixedArguments < source.arguments.length then
    .error "invalid channel definition" else
  match s.find source.functionId with
  | none => .error "channel function is not registered"
  | some entry =>
  if !entry.acceptsNumbers && !entry.acceptsText then
    .error "channel function is not registered" else
  if source.bits.any (fun bit ↦ 1 < bit) then .error "channel bits must be 0 or 1" else
  match source.ascii.bind (NoobProgramChannel.configure {} source.functionId source.arguments) with
  | none => .error "invalid channel arguments"
  | some channel => .ok
    { configured := true
      intervalMs := source.intervalMs
      bits := source.bits.map fun bit ↦ bitChar (bit ≠ 0)
      bitCount := source.bits.length
      channel := channel
      appendInput := source.appendInput }

/-- The loop of `load`: the tracks of all channels, or the first that is wrong and why. -/
def loadChannels (slot : Nat) : List ChannelDefinition → Except (Nat × String) (List Track)
  | [] => .ok []
  | source :: channels =>
    match s.loadChannel source with
    | .error detail => .error (slot, detail)
    | .ok track => (loadChannels (slot + 1) channels).map (track :: ·)

/-- All tracks replaced by those that were loaded, and by blank ones in the slots after them. -/
def holding (loaded : List Track) : Sequencer :=
  { s with tracks := fun slot ↦ loaded[slot.val]?.getD {} }

/-- `load`: replace all tracks by those of a compiled sequence. -/
def load (channels : List ChannelDefinition) : NativeResult × Sequencer :=
  if s.running then (.fail "stop sequence before replacing", s) else
  if channels.isEmpty ∨ maxTracks < channels.length then
    (.fail "sequence must contain 1..4 channels", s) else
  match s.loadChannels 0 channels with
  | .error (slot, detail) => (⟨false, slot, detail, .empty⟩, s)
  | .ok loaded =>
    (⟨true, channels.length, "channels=" ++ toString channels.length, .empty⟩,
      s.holding loaded)

/-! ## Playing and stopping -/

/-- What `start` does once it has accepted: every configured track is active, due at once, and at
its first bit. -/
def started (repeating : Bool) (now : Nat) : Sequencer :=
  { s with
    repeating := repeating
    tracks := fun slot ↦
      { s.tracks slot with active := (s.tracks slot).configured, position := 0, nextAt := now }
    channelBusy := fun slot ↦ (s.tracks slot).configured
    running := true }

variable (arguments : List Int)

/-- `start`, with `now` what `millis()` returns. -/
def start (now : Nat) : NativeResult × Sequencer :=
  if ¬(arguments = [] ∨ arguments = [0] ∨ arguments = [1]) then
    (.fail "usage: [repeat(0|1)]", s) else
  if s.running then (.fail "sequence already running", s) else
  if s.configuredCount = 0 then (.fail "no sequence tracks configured", s) else
  let s' := s.started (arguments = [1]) now
  (⟨true, s'.configuredCount, s'.stateDetail, .empty⟩, s')

def stop : NativeResult × Sequencer :=
  if arguments ≠ [] then (.fail "usage: no arguments", s)
  else (⟨true, 0, s.stopAll.stateDetail, .empty⟩, s.stopAll)

/-- `clear`: one track or all of them. -/
def clear : NativeResult × Sequencer :=
  if s.running then (.fail "stop sequence before clearing", s) else
  match arguments with
  | [] => (⟨true, 0, "cleared=all", .empty⟩, { s with tracks := fun _ ↦ {} })
  | [value] =>
    match slot? value with
    | none => (.fail "slot must be 0..3", s)
    | some slot => (⟨true, value, "cleared=" ++ toString value, .empty⟩, s.setTrack slot {})
  | _ => (.fail "usage: [slot]", s)

/-! ## Reading results -/

/-- The one argument of the four operations on a channel's queue or flag. -/
def slotArgument : Option Slot :=
  match arguments with
  | [value] => slot? value
  | _ => none

/-- `pop`: the oldest result of a channel. -/
def pop : NativeResult × Sequencer :=
  match slotArgument arguments with
  | none => (.fail "usage: slot(0..3)", s)
  | some slot =>
  match (s.tracks slot).channel.results.pop with
  | none => (.fail "channel queue empty", s)
  | some (record, queue) =>
    (⟨true, record.primary.getD 0,
        "slot=" ++ toString slot.val ++ " remaining=" ++ toString queue.size ++ " dropped="
          ++ toString queue.dropped, record⟩,
      { s.updateChannel slot fun c ↦ { c with results := queue } with
        lastPopped := Function.update s.lastPopped slot record
        haveLastPopped := Function.update s.haveLastPopped slot true })

def clearQueue : NativeResult × Sequencer :=
  match slotArgument arguments with
  | none => (.fail "usage: slot(0..3)", s)
  | some slot =>
    (⟨true, 0, "slot=" ++ toString slot.val ++ " cleared=1", .empty⟩,
      { s.updateChannel slot fun c ↦ { c with results := c.results.clear } with
        haveLastPopped := Function.update s.haveLastPopped slot false })

/-- `field`: a field of the record popped last. -/
def field : NativeResult :=
  match arguments with
  | [value, index] =>
    match slot? value with
    | none => .fail "usage: slot(0..3) field_index(0..5)"
    | some slot =>
    if index < 0 ∨ (NoobRecord.maxFields : Int) ≤ index then
      .fail "usage: slot(0..3) field_index(0..5)" else
    if !s.haveLastPopped slot then .fail "no popped channel record" else
    match (s.lastPopped slot).get? index.toNat with
    | none => .fail "record field absent"
    | some f =>
      ⟨true, f.value, "slot=" ++ toString slot.val ++ " field=" ++ toString index ++ " name="
        ++ f.name, .empty⟩
  | _ => .fail "usage: slot(0..3) field_index(0..5)"

def busyMask : Nat :=
  ((List.finRange 4).map fun slot ↦ if s.channelBusy slot then 2 ^ slot.val else 0).sum

/-- The end of an iteration of `tick`, after a call that went well. -/
def advance (now : Nat) (slot : Slot) : Sequencer :=
  { s.setTrack slot ((s.tracks slot).advance now s.repeating) with
    channelBusy :=
      if (s.tracks slot).ends s.repeating then Function.update s.channelBusy slot false
      else s.channelBusy }

@[simp] theorem advance_tracks (now : Nat) (slot : Slot) :
    (s.advance now slot).tracks =
      Function.update s.tracks slot ((s.tracks slot).advance now s.repeating) := rfl

end Sequencer

/-! ## Native functions that use the sequencer -/

/-- A use of the sequencer that may change it.  `now` is the time at which `millis()` is read. -/
inductive SeqOp
  | set (arguments : Bytes)
  | setMixed (arguments : List Int) (ascii : Bytes)
  | setNumeric (arguments : List Int) (ascii : Bytes) (appendInput : Bool)
  | load (channels : List ChannelDefinition)
  | start (arguments : List Int) (now : Nat)
  | stop (arguments : List Int)
  | clear (arguments : List Int)
  | pop (arguments : List Int)
  | clearQueue (arguments : List Int)
  | tick (now : Nat)

/-- The native functions of a sequencer, over a world of their own. -/
abbrev SeqNatives (W : Type) := NativeRegistry (Script W Sequencer SeqOp)

/-- A call the sequencer makes. -/
structure Invocation where
  slot : Slot
  functionId : Nat
  arguments : List Int
  ascii : Bytes
  deriving DecidableEq

/-- A tick under way: the natives' world, the sequencer, and the local variables. -/
structure Tick (W : Type) where
  world : W
  seq : Sequencer
  invoked : Bool := false
  /-- `event`, once it is set. -/
  event : Option String := none
  /-- The calls this tick has made, in order. -/
  calls : List Invocation := []

namespace SequenceRunner

variable {W : Type} (natives : SeqNatives W) (perform : SeqOp → W × Sequencer → W × Sequencer)

/-- `track.channel.invoke(*nativeRegistry, input, track.appendInput)`.  The outcome is written to
the channel as the function left it. -/
def invoke (slot : Slot) (t : Tick W) : Tick W :=
  let track := t.seq.tracks slot
  let seq := t.seq.updateChannel slot fun c ↦ { c with busy := true }
  match natives.find track.channel.functionId with
  | none => { t with seq := seq.updateChannel slot .missing, invoked := true }
  | some entry =>
    let arguments := track.channel.callArguments track.input track.appendInput
    let p := Script.exec perform (NativeRegistry.callMixed entry arguments track.channel.ascii)
      (t.world, seq)
    { t with
      world := p.2.1
      seq := p.2.2.updateChannel slot fun c ↦ c.finished p.1
      invoked := true
      calls := t.calls ++ [⟨slot, track.channel.functionId, arguments, track.channel.ascii⟩] }

/-- `if (!track.channel.lastOk()) …`: the sequence ends with an error. -/
def error (slot : Slot) (t : Tick W) : Tick W :=
  let channel := (t.seq.tracks slot).channel
  { t with
    seq := t.seq.stopAll
    event := some ("NRP/1 0 EVENT SEQUENCE_ERROR slot=" ++ toString slot.val ++ " function="
      ++ toString channel.functionId ++ " detail=" ++ channel.lastDetail) }

/-- The text of the event that ends a sequence. -/
def completeEvent : String := "NRP/1 0 EVENT SEQUENCE_COMPLETE"

/-- An iteration of the loop of `tick`. -/
def service (now : Nat) (slot : Slot) : Proc (Tick W) Unit := do
  let track ← Proc.read fun t ↦ t.seq.tracks slot
  if track.active = false ∨ Clock.before now track.nextAt = true then pure ()
  else
    Proc.change (invoke natives perform slot)
    let lastOk ← Proc.read fun t ↦ (t.seq.tracks slot).channel.lastOk
    if lastOk = false then
      Proc.change (error slot)
      Proc.exit
    else Proc.change fun t ↦ { t with seq := t.seq.advance now slot }

/-- The loop of `tick` over some of the slots. -/
def services (now : Nat) : List Slot → Proc (Tick W) Unit
  | [] => pure ()
  | slot :: slots => do
    service natives perform now slot
    services now slots

/-- The end of `tick`: the sequence is over when a call was made and no track is left active. -/
def finish (t : Tick W) : Tick W :=
  if t.invoked = true ∧ t.seq.activeCount = 0 then
    { t with seq := { t.seq with running := false }, event := some completeEvent }
  else t

/-- `tick`, from the given slots on. -/
def tickFrom (now : Nat) (slots : List Slot) : Proc (Tick W) Unit := do
  services natives perform now slots
  Proc.change finish

/-- `tick`, with `now` what `millis()` returns. -/
def tick (now : Nat) (p : W × Sequencer) : Tick W :=
  if p.2.running = false then { world := p.1, seq := p.2 }
  else (tickFrom natives perform now (List.finRange 4)).final { world := p.1, seq := p.2 }

end SequenceRunner

namespace SeqOp

variable {W : Type} (natives : SeqNatives W)

/-- The operations other than `tick`. -/
def effect : SeqOp → Sequencer → Sequencer
  | .set arguments, s => (s.set arguments).2
  | .setMixed arguments ascii, s => (s.setMixed arguments ascii).2
  | .setNumeric arguments ascii appendInput, s => (s.setNumeric arguments ascii appendInput).2
  | .load channels, s => (s.load channels).2
  | .start arguments now, s => (s.start arguments (Clock.millis now)).2
  | .stop arguments, s => (s.stop arguments).2
  | .clear arguments, s => (s.clear arguments).2
  | .pop arguments, s => (s.pop arguments).2
  | .clearQueue arguments, s => (s.clearQueue arguments).2
  | .tick _, s => s

/-- What an operation does when native functions tick the sequencer at most `depth` deep.  Every
execution that comes to an end is one of these for some `depth`. -/
def perform : Nat → SeqOp → W × Sequencer → W × Sequencer
  | 0, op, p => (p.1, op.effect p.2)
  | depth + 1, .tick now, p =>
    let t := SequenceRunner.tick natives (perform depth) (Clock.millis now) p
    (t.world, t.seq)
  | _ + 1, op, p => (p.1, op.effect p.2)

/-- An operation other than `tick` is the same at every depth. -/
theorem perform_eq (op : SeqOp) (h : ∀ now, op ≠ .tick now) (depth : Nat) (p : W × Sequencer) :
    op.perform natives depth p = (p.1, op.effect p.2) := by
  cases depth with
  | zero => rfl
  | succ depth =>
    cases op with
    | tick now => exact absurd rfl (h now)
    | _ => rfl

/-- A whole history of operations. -/
def runOps (depth : Nat) (ops : List SeqOp) (p : W × Sequencer) : W × Sequencer :=
  ops.foldl (fun p op ↦ op.perform natives depth p) p

end SeqOp

end Noobia
