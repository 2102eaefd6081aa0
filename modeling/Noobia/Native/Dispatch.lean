import Noobia.Sequence.Service
import Noobia.Thread.Sampling

/-!
# Does the registry call the function it was asked for?

`NativeRegistry::call` and `NativeRegistry::callText` are the two entrances of the legacy commands
(`CALL`, `CALL_TEXT` and the syscall opcode).  Neither uses the entry point of the function that has
its name: both go through the virtual `callMixed`, with an empty text or with no numbers, and rely
on the function to find out what was meant.

This file lists the kinds of native functions there are (`NativeClass`) and determines, for each of
them, exactly when the detour makes no difference.  It never does for a function that leaves
`callMixed` to its base class or that is a `callMixed` to begin with.  The two classes that override
all three entry points are another matter: `SequenceConfigurationFunction` expects one more number
in its mixed form, and a sampling thread forgets its text.
-/

namespace Noobia

open List

/-! ## The device -/

/-- What native functions read and write: the sequencer, the sampling threads, the clock, and
whatever else there is. -/
structure Device (R : Type) where
  sequencer : Sequencer
  threads : Nat → NoobSamplingThread
  /-- What `millis()` returns. -/
  now : Nat
  /-- Pins, files, radios and the other threads. -/
  rest : R

namespace Device

variable {R : Type}

/-- Do something with the sequencer. -/
def onSequencer (f : Sequencer → NativeResult × Sequencer) : StateM (Device R) NativeResult :=
  fun d ↦ ((f d.sequencer).1, { d with sequencer := (f d.sequencer).2 })

/-- Do something with one of the sampling threads. -/
def onThread (index : Nat) (f : NoobSamplingThread → Nat → NativeResult × NoobSamplingThread) :
    StateM (Device R) NativeResult :=
  fun d ↦ ((f (d.threads index) d.now).1,
    { d with threads := Function.update d.threads index (f (d.threads index) d.now).2 })

theorem onSequencer_eq_iff (f g : Sequencer → NativeResult × Sequencer) (d : Device R) :
    onSequencer f d = onSequencer g d ↔ f d.sequencer = g d.sequencer := by
  rw [Prod.ext_iff, Prod.ext_iff]
  simp [onSequencer]

theorem onThread_eq_iff (index : Nat)
    (f g : NoobSamplingThread → Nat → NativeResult × NoobSamplingThread) (d : Device R) :
    onThread index f d = onThread index g d ↔
      f (d.threads index) d.now = g (d.threads index) d.now := by
  rw [Prod.ext_iff, Prod.ext_iff]
  simp [onThread, (Function.update_injective d.threads index).eq_iff]

end Device

/-- The kinds of native functions. -/
inductive NativeClass (R : Type)
  /-- A function on numbers that overrides `call` alone: a plain function behind
  `NumericFunctionAdapter`, a pin, a sequence program, a change or rise thread, the operations on a
  thread, the self-test. -/
  | numeric (function : List Int → StateM (Device R) NativeResult)
  /-- A function on text behind `TextFunctionAdapter`. -/
  | text (function : Bytes → StateM (Device R) NativeResult)
  /-- A function on both behind `MixedFunctionAdapter`. -/
  | mixed (function : List Int → Bytes → StateM (Device R) NativeResult)
  /-- `SequenceConfigurationFunction`, registered as `SEQUENCE_SET`. -/
  | sequenceConfiguration
  /-- `NoobSamplingThreadProgram`. -/
  | samplingThread (index : Nat)

namespace NativeClass

variable {R : Type}

/-- The methods of a class. -/
def implementation : NativeClass R → NoobFunction (StateM (Device R))
  | numeric function => .numericAdapter function
  | text function => .textAdapter function
  | mixed function => .mixedAdapter function
  | sequenceConfiguration =>
    { acceptsNumbers := true
      acceptsText := true
      call := fun arguments ↦ Device.onSequencer fun s ↦ s.setNumeric arguments [] true
      callText := fun arguments ↦ Device.onSequencer fun s ↦ s.set arguments
      callMixed := fun arguments ascii ↦ Device.onSequencer fun s ↦ s.setMixed arguments ascii }
  | samplingThread index =>
    { acceptsNumbers := true
      acceptsText := true
      call := fun arguments ↦ Device.onThread index fun t now ↦ t.call arguments now
      callText := fun ascii ↦ Device.onThread index fun t now ↦ t.callText ascii now
      callMixed := fun arguments ascii ↦
        Device.onThread index fun t now ↦ t.callMixed arguments ascii now }

end NativeClass

/-! ## The three forms of `SEQUENCE_SET` -/

namespace Sequencer

variable (s : Sequencer)

theorem fail_ne_mixedUsage {detail : String} (h : detail ≠ mixedUsage) :
    NativeResult.fail detail ≠ .fail mixedUsage :=
  fun heq ↦ h (congrArg NativeResult.detail heq)

theorem select_ne_mixedUsage (selector : Bytes) : s.select selector ≠ .error mixedUsage := by
  have hentry (entry : Option NativeRegistry.Signature) :
      numericEntry entry ≠ .error mixedUsage := by
    cases entry with
    | none => simp [numericEntry, mixedUsage]
    | some entry => cases h : entry.acceptsNumbers <;> simp [numericEntry, mixedUsage, h]
  rw [select]
  split
  · split
    · simp [mixedUsage]
    · exact hentry _
  · exact hentry _

theorem parseArguments_ne_mixedUsage (room : Nat) (text : Bytes) :
    parseArguments room text ≠ .error mixedUsage := by
  induction room generalizing text with
  | zero => cases text <;> simp [parseArguments, mixedUsage]
  | succ room ih =>
    cases text with
    | nil => simp [parseArguments]
    | cons c text =>
      simp only [parseArguments]
      split
      · simp [mixedUsage]
      have hrest := ih (tokenAt (c :: text)).2
      cases h : parseArguments room (tokenAt (c :: text)).2 with
      | error detail => simpa [Except.map, h] using hrest
      | ok arguments => simp [Except.map]

/-- No answer of `set` is the usage message of `setMixed`. -/
theorem set_ne_mixedUsage (arguments : Bytes) : (s.set arguments).1 ≠ .fail mixedUsage := by
  rw [set]
  split
  · exact fail_ne_mixedUsage (by decide)
  simp only
  split
  · exact fail_ne_mixedUsage (by decide)
  split
  · exact fail_ne_mixedUsage (by decide)
  split
  · exact fail_ne_mixedUsage (by decide)
  split
  · exact fail_ne_mixedUsage (by decide)
  split
  · rename_i detail hselect
    exact fail_ne_mixedUsage fun h ↦ select_ne_mixedUsage s _ (h ▸ hselect)
  split
  · rename_i detail hparse
    exact fail_ne_mixedUsage fun h ↦ parseArguments_ne_mixedUsage _ _ (h ▸ hparse)
  · exact fun h ↦ absurd (congrArg NativeResult.ok h) (by simp)

theorem setPacked_ne_mixedUsage (slot : Slot) (interval functionId bitCount packed : Int)
    (fixedArguments : List Int) (ascii : Bytes) (appendInput : Bool) :
    (s.setPacked slot interval functionId bitCount packed fixedArguments ascii appendInput).1 ≠
      .fail mixedUsage := by
  rw [setPacked]
  split
  · exact fail_ne_mixedUsage (by decide)
  split
  · exact fail_ne_mixedUsage (by decide)
  split
  · exact fail_ne_mixedUsage (by decide)
  split
  · exact fail_ne_mixedUsage (by decide)
  · exact fun h ↦ absurd (congrArg NativeResult.ok h) (by simp)

/-- No answer of `setNumeric` is the usage message of `setMixed`. -/
theorem setNumeric_ne_mixedUsage (arguments : List Int) (ascii : Bytes) (appendInput : Bool) :
    (s.setNumeric arguments ascii appendInput).1 ≠ .fail mixedUsage := by
  unfold setNumeric
  split
  · exact fail_ne_mixedUsage (by decide)
  split
  · split
    · exact fail_ne_mixedUsage (by decide)
    split
    · exact fail_ne_mixedUsage (by decide)
    split
    · exact fail_ne_mixedUsage (by decide)
    split
    · exact fail_ne_mixedUsage (by decide)
    · exact s.setPacked_ne_mixedUsage _ _ _ _ _ _ _ _
  · exact fail_ne_mixedUsage (by decide)

/-- The first four numbers of `setNumeric` are in range. -/
def HeadInRange (slot interval functionId bitCount : Int) : Prop :=
  (0 ≤ slot ∧ slot < 4) ∧ (1 ≤ interval ∧ interval ≤ 60000) ∧
    (0 ≤ functionId ∧ functionId ≤ 65535) ∧ 1 ≤ bitCount ∧ bitCount ≤ 32

/-- There is no function of that number for a track to call. -/
def Unregistered (functionId : Int) : Prop :=
  ∀ entry ∈ s.find functionId.toNat, entry.acceptsNumbers = false ∧ entry.acceptsText = false

/-- The numeric and the mixed form of `SEQUENCE_SET` refuse the same numbers in the same words:
there is a legal append flag where the fixed arguments begin, and either the sequence is running, or
one of the first four numbers is out of range, or there is no such function. -/
def SetRefusesAlike : List Int → Prop
  | slot :: interval :: functionId :: bitCount :: _ :: append :: fixedArguments =>
    (append = 0 ∨ append = 1) ∧ fixedArguments.length ≤ 7 ∧
      (s.running = true ∨ ¬ HeadInRange slot interval functionId bitCount ∨
        fixedArguments.length ≤ 6 ∧ s.Unregistered functionId)
  | _ => False

variable {slot interval functionId bitCount : Int}

/-- What is wrong with the first four numbers is noticed before anything that follows them. -/
theorem setNumeric_congr (h : s.running = true ∨ ¬ HeadInRange slot interval functionId bitCount)
    (packed : Int) (fixed fixed' : List Int) (append append' : Bool) :
    s.setNumeric (slot :: interval :: functionId :: bitCount :: packed :: fixed) [] append =
      s.setNumeric (slot :: interval :: functionId :: bitCount :: packed :: fixed') [] append' := by
  unfold setNumeric
  by_cases hrun : s.running = true
  · simp [hrun]
  simp only [hrun, if_false, Bool.false_eq_true]
  by_cases hslot : 0 ≤ slot ∧ slot < 4
  swap
  · simp [slot?, hslot]
  by_cases hinterval : interval < 1 ∨ (maxIntervalMs : Int) < interval
  · simp [slot?, hslot, hinterval]
  by_cases hid : functionId < 0 ∨ 65535 < functionId
  · simp [slot?, hslot, hinterval, hid]
  by_cases hbits : bitCount < 1 ∨ 32 < bitCount
  · simp [slot?, hslot, hinterval, hid, hbits]
  refine absurd ⟨hslot, ?_, ?_, ?_⟩ (h.resolve_left hrun)
  · rw [maxIntervalMs] at hinterval
    omega
  · omega
  · omega

/-- Numbers in range leave everything to the rest of the arguments. -/
theorem setNumeric_of_inRange (hrun : s.running = false)
    (h : HeadInRange slot interval functionId bitCount) :
    ∃ slot', ∀ packed fixed append,
      s.setNumeric (slot :: interval :: functionId :: bitCount :: packed :: fixed) [] append =
        s.setPacked slot' interval functionId bitCount packed fixed [] append := by
  obtain ⟨hslot, hinterval, hid, hbits⟩ := h
  have hinterval : ¬(interval < 1 ∨ (maxIntervalMs : Int) < interval) := by
    rw [maxIntervalMs]
    omega
  have hid : ¬(functionId < 0 ∨ 65535 < functionId) := by omega
  have hbits : ¬(bitCount < 1 ∨ 32 < bitCount) := by omega
  exact ⟨⟨slot.toNat, by omega⟩, fun packed fixed append ↦ by
    simp [setNumeric, hrun, slot?, hslot, hinterval, hid, hbits]⟩

section Packed

variable (interval bitCount)

variable (slot' : Slot) (packed : Int)

/-- A registered function's track gets the fixed arguments as they are. -/
theorem setPacked_of_registered (hfind : ¬ s.Unregistered functionId) (fixed : List Int)
    (hlen : fixed.length ≤ 7) (append : Bool) :
    (s.setPacked slot' interval functionId bitCount packed fixed [] append).1.ok = true ∧
      ((s.setPacked slot' interval functionId bitCount packed fixed [] append).2.tracks
        slot').channel.arguments = fixed := by
  simp only [Unregistered, not_forall] at hfind
  obtain ⟨entry, hentry, haccepts⟩ := hfind
  have hnone : ¬(!entry.acceptsNumbers && !entry.acceptsText) = true := by simpa using haccepts
  have hchannel : NoobProgramChannel.configure {} entry.id fixed [] =
      some { functionId := entry.id, arguments := fixed } := by
    rw [NoobProgramChannel.configure, if_neg, if_neg]
    · rfl
    · simp
    · simpa [NoobProgramChannel.maxArguments] using hlen
  rw [setPacked, if_neg (by rw [maxFixedArguments]; omega), Option.mem_def.mp hentry]
  simp only [if_neg hnone, hchannel, setTrack_tracks, Function.update_self, and_self]

theorem setPacked_of_unregistered (hfind : s.Unregistered functionId) (fixed : List Int)
    (hlen : fixed.length ≤ 7) (append : Bool) :
    s.setPacked slot' interval functionId bitCount packed fixed [] append =
      (.fail "function must be registered", s) := by
  rw [setPacked, if_neg (by rw [maxFixedArguments]; omega)]
  cases h : s.find functionId.toNat with
  | none => rfl
  | some entry =>
    obtain ⟨hnumbers, htext⟩ := hfind entry h
    simp [hnumbers, htext]

/-- One fixed argument more is noticed, unless there is no function to pass it to. -/
theorem setPacked_cons_eq_iff (value : Int) {fixed : List Int} (hlen : fixed.length ≤ 7)
    (append : Bool) :
    s.setPacked slot' interval functionId bitCount packed fixed [] append =
        s.setPacked slot' interval functionId bitCount packed (value :: fixed) [] true ↔
      fixed.length ≤ 6 ∧ s.Unregistered functionId := by
  by_cases hlen' : fixed.length ≤ 6
  · have hcons : (value :: fixed).length ≤ 7 := Nat.succ_le_succ hlen'
    by_cases hfind : s.Unregistered functionId
    · rw [s.setPacked_of_unregistered interval bitCount slot' packed hfind fixed hlen append,
        s.setPacked_of_unregistered interval bitCount slot' packed hfind (value :: fixed) hcons
          true]
      exact iff_of_true rfl ⟨hlen', hfind⟩
    · refine iff_of_false (fun h ↦ ?_) fun h ↦ hfind h.2
      have hfew :=
        (s.setPacked_of_registered interval bitCount slot' packed hfind fixed hlen append).2
      rw [h, (s.setPacked_of_registered interval bitCount slot' packed hfind (value :: fixed) hcons
        true).2] at hfew
      exact absurd (congrArg List.length hfew) (by simp)
  · refine iff_of_false (fun h ↦ ?_) fun h ↦ hlen' h.1
    -- Eight fixed arguments are too many; seven fail for another reason if they fail at all.
    have hmany : (s.setPacked slot' interval functionId bitCount packed fixed [] append).1 =
        .fail "at most 7 fixed arguments" := by
      rw [h, setPacked, if_pos (by rw [maxFixedArguments, length_cons]; omega)]
    by_cases hfind : s.Unregistered functionId
    · rw [s.setPacked_of_unregistered interval bitCount slot' packed hfind fixed hlen append]
        at hmany
      simp [NativeResult.fail] at hmany
    have hfew :=
      (s.setPacked_of_registered interval bitCount slot' packed hfind fixed hlen append).1
    rw [hmany] at hfew
    exact absurd hfew (by decide)

end Packed

/-- **The numeric form of `SEQUENCE_SET`, by way of the mixed one.**  It comes to the same thing
only when both refuse. -/
theorem setMixed_eq_setNumeric_iff (arguments : List Int) :
    s.setMixed arguments [] = s.setNumeric arguments [] true ↔ s.SetRefusesAlike arguments := by
  have husage (h : s.setMixed arguments [] = (.fail mixedUsage, s)) :
      s.setMixed arguments [] ≠ s.setNumeric arguments [] true :=
    fun heq ↦ s.setNumeric_ne_mixedUsage arguments [] true (by rw [← heq, h])
  match arguments with
  | slot :: interval :: functionId :: bitCount :: packed :: append :: fixed =>
    by_cases hform : (append = 0 ∨ append = 1) ∧ fixed.length ≤ 7
    · have hmixed : s.setMixed
          (slot :: interval :: functionId :: bitCount :: packed :: append :: fixed) [] =
          s.setNumeric (slot :: interval :: functionId :: bitCount :: packed :: fixed) []
            (decide (append ≠ 0)) := by
        rw [setMixed, if_neg]
        · simp
        simp only [length_cons, getElem?_cons_succ, getElem?_cons_zero, ne_eq,
          Option.some.injEq]
        omega
      simp only [hmixed, SetRefusesAlike, hform, true_and]
      by_cases hhead : s.running = true ∨ ¬ HeadInRange slot interval functionId bitCount
      · refine iff_of_true (s.setNumeric_congr hhead ..) ?_
        rcases hhead with h | h
        · exact .inl h
        · exact .inr (.inl h)
      · simp only [not_or, not_not, Bool.not_eq_true] at hhead
        obtain ⟨slot', hpacked⟩ := s.setNumeric_of_inRange hhead.1 hhead.2
        rw [hpacked, hpacked, s.setPacked_cons_eq_iff interval bitCount slot' packed append hform.2]
        simp [hhead]
    · refine iff_of_false (husage ?_) fun h ↦ hform ⟨h.1, h.2.1⟩
      rw [setMixed, if_pos]
      simp only [length_cons, getElem?_cons_succ, getElem?_cons_zero, ne_eq,
        Option.some.injEq]
      omega
  | [] | [_] | [_, _] | [_, _, _] | [_, _, _, _] | [_, _, _, _, _] =>
    exact iff_of_false (husage rfl) id

/-- **The text form of `SEQUENCE_SET`, by way of the mixed one,** never does what it should: there
are no numbers, so `setMixed` answers with its usage. -/
theorem setMixed_ne_set (arguments : Bytes) : s.setMixed [] arguments ≠ s.set arguments :=
  fun h ↦ s.set_ne_mixedUsage arguments (by rw [← h]; rfl)

end Sequencer

/-! ## Every native function -/

namespace NativeClass

variable {R : Type}

/-- When `NativeRegistry::call` on a function of this class does what its `call` does. -/
def NumbersAgree (d : Device R) (arguments : List Int) : NativeClass R → Prop
  | numeric _ | text _ | mixed _ => True
  | sequenceConfiguration => d.sequencer.SetRefusesAlike arguments
  | samplingThread index =>
    NoobSamplingThread.validArguments arguments = true ∧ (d.threads index).sourceAscii = []

/-- When `NativeRegistry::callText` on a function of this class does what its `callText` does. -/
def TextAgrees : NativeClass R → Prop
  | numeric _ | text _ | mixed _ | samplingThread _ => True
  | sequenceConfiguration => False

theorem call_eq_iff (c : NativeClass R) (id : Nat) (name : Bytes) (arguments : List Int)
    (d : Device R) :
    NativeRegistry.call ⟨id, name, c.implementation⟩ arguments d =
      c.implementation.call arguments d ↔ c.NumbersAgree d arguments := by
  cases c with
  | numeric function =>
    simp [implementation, NativeRegistry.call, NoobFunction.numericAdapter, NoobFunction.ofNumbers,
      NoobFunction.ofBase, NumbersAgree]
  | text function =>
    simp [implementation, NativeRegistry.call, NoobFunction.textAdapter, NoobFunction.ofBase,
      NoobFunction.baseCall, NumbersAgree]
  | mixed function =>
    simp [implementation, NativeRegistry.call, NoobFunction.mixedAdapter, NumbersAgree]
  | sequenceConfiguration =>
    rw [NumbersAgree, ← Sequencer.setMixed_eq_setNumeric_iff]
    exact Device.onSequencer_eq_iff (fun s ↦ s.setMixed arguments [])
      (fun s ↦ s.setNumeric arguments [] true) d
  | samplingThread index =>
    rw [NumbersAgree, ← (d.threads index).callMixed_nil_eq_call_iff d.now]
    exact Device.onThread_eq_iff index (fun t now ↦ t.callMixed arguments [] now)
      (fun t now ↦ t.call arguments now) d

theorem callText_eq_iff (c : NativeClass R) (id : Nat) (name : Bytes) (ascii : Bytes)
    (d : Device R) :
    NativeRegistry.callText ⟨id, name, c.implementation⟩ ascii d =
      c.implementation.callText ascii d ↔ c.TextAgrees := by
  cases c with
  | numeric function =>
    simp [implementation, NativeRegistry.callText, NoobFunction.numericAdapter,
      NoobFunction.ofNumbers, NoobFunction.ofBase, NoobFunction.baseCallText, TextAgrees]
  | text function =>
    simp [implementation, NativeRegistry.callText, NoobFunction.textAdapter, NoobFunction.ofBase,
      TextAgrees]
  | mixed function =>
    simp [implementation, NativeRegistry.callText, NoobFunction.mixedAdapter, TextAgrees]
  | sequenceConfiguration =>
    refine iff_of_false (fun h ↦ ?_) not_false
    exact d.sequencer.setMixed_ne_set ascii
      ((Device.onSequencer_eq_iff (fun s ↦ s.setMixed [] ascii) (fun s ↦ s.set ascii) d).mp h)
  | samplingThread index => exact iff_of_true rfl trivial

end NativeClass

/-- **Native dispatch, function by function.**  For every native function and on every device, a
legacy call through the registry has the result and the effect of the entry point it is named after
exactly when `NumbersAgree`, respectively `TextAgrees`, says so: always for a function with one
entry point; for a sampling thread as long as the numbers are in range and it has no text to lose;
for `SEQUENCE_SET` with numbers only if they are refused either way, and with text never. -/
theorem dispatch_transparent_iff {R : Type} (c : NativeClass R) (id : Nat) (name : Bytes)
    (d : Device R) (arguments : List Int) (ascii : Bytes) :
    (NativeRegistry.call ⟨id, name, c.implementation⟩ arguments d =
        c.implementation.call arguments d ↔ c.NumbersAgree d arguments) ∧
      (NativeRegistry.callText ⟨id, name, c.implementation⟩ ascii d =
        c.implementation.callText ascii d ↔ c.TextAgrees) :=
  ⟨c.call_eq_iff id name arguments d, c.callText_eq_iff id name ascii d⟩

/-- A device with one function to play, number 1, and nothing configured. -/
def bench : Device Unit where
  sequencer := Sequencer.begin {} [⟨1, Bytes.ofAscii "PIN", true, false⟩]
  threads := fun _ ↦ .make 1 250 0 [] []
  now := 0
  rest := ()

/-- `SEQUENCE_SET` as it is registered. -/
def sequenceSet : NativeEntry (StateM (Device Unit)) :=
  ⟨3, Bytes.ofAscii "SEQUENCE_SET", NativeClass.sequenceConfiguration.implementation⟩

/-- Five numbers are a complete command for `setNumeric`, which configures slot 0 with them.  By way
of the registry they are too few, and the track stays blank.  The same goes for the text. -/
theorem legacy_set_refused :
    let numbers := [0, 250, 1, 4, 10]
    -- `0 250 1 1010`
    let text : Bytes := [48, 32, 50, 53, 48, 32, 49, 32, 49, 48, 49, 48]
    (sequenceSet.implementation.call numbers bench).1.ok = true ∧
      ((sequenceSet.implementation.call numbers bench).2.sequencer.tracks 0).configured = true ∧
      (NativeRegistry.call sequenceSet numbers bench).1.ok = false ∧
      ((NativeRegistry.call sequenceSet numbers bench).2.sequencer.tracks 0).configured = false ∧
      (sequenceSet.implementation.callText text bench).1.ok = true ∧
      ((sequenceSet.implementation.callText text bench).2.sequencer.tracks 0).configured = true ∧
      (NativeRegistry.callText sequenceSet text bench).1.ok = false ∧
      ((NativeRegistry.callText sequenceSet text bench).2.sequencer.tracks 0).configured = false :=
    by
  decide

end Noobia
