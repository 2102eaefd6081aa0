import Noobia.Sequence.Replace

/-!
# Operations that fail

The operations of the sequencer check all there is to check before they write anything, so that one
that fails leaves no trace.  `Sequencer.Edited` and its companions say so for the six of the
service, and say of the ones that succeed what they write.

A compiled sequence is three operations, one after the other: whatever is playing is stopped, the
channels are loaded, and the new sequence is started.  The second may fail, and then the first has
been carried out all the same.  `failed_unchanged_iff` says when that shows.
-/

namespace Noobia

namespace Sequencer

variable {s : Sequencer}

/-- Nothing is playing, and no channel is marked busy. -/
def Idle (s : Sequencer) : Prop :=
  s.running = false ∧ ∀ slot, (s.tracks slot).active = false ∧ s.channelBusy slot = false
  deriving Decidable

/-- The tracks with their positions and result queues, the busy flags and the two flags of the
sequence are as before. -/
structure Unchanged (s s' : Sequencer) : Prop where
  tracks : s'.tracks = s.tracks
  channelBusy : s'.channelBusy = s.channelBusy
  running : s'.running = s.running
  repeating : s'.repeating = s.repeating

theorem Unchanged.refl (s : Sequencer) : s.Unchanged s := ⟨rfl, rfl, rfl, rfl⟩

/-- Stopping makes no difference exactly to a sequencer that is idle. -/
theorem unchanged_stopAll_iff : s.Unchanged s.stopAll ↔ s.Idle := by
  constructor
  · intro h
    refine ⟨h.running.symm, fun slot ↦ ⟨?_, ?_⟩⟩
    · exact (congrArg Track.active (congrFun h.tracks slot)).symm
    · exact (congrFun h.channelBusy slot).symm
  · rintro ⟨hrun, hslots⟩
    refine ⟨funext fun slot ↦ ?_, funext fun slot ↦ (hslots slot).2.symm, hrun.symm, rfl⟩
    rw [stopAll, ← (hslots slot).1]

end Sequencer

namespace NoobSequenceProgram

variable {W : Type} (program : NoobSequenceProgram)

/-- A call fails at its arguments and has done nothing, or fails at loading and has stopped what was
playing, or succeeds. -/
theorem exec_call_cases (natives : SeqNatives W) (depth : Nat) (millis : W → Nat)
    (arguments : List Int) (world : W) (s : Sequencer) :
    let r := Script.exec (SeqOp.perform natives depth) (program.call millis arguments) (world, s)
    (¬ (arguments = [] ∨ arguments = [0] ∨ arguments = [1]) ∧ r.2.2 = s) ∨
      ((arguments = [] ∨ arguments = [0] ∨ arguments = [1]) ∧ r.1.ok = false ∧ r.2.2 = s.stopAll) ∨
      r.1.ok = true := by
  intro r
  by_cases harguments : arguments = [] ∨ arguments = [0] ∨ arguments = [1]
  · obtain ⟨hfail, hsame⟩ | ⟨hok, -⟩ := s.stopAll.load_cases program.channels
    · have hcall : program.call millis arguments world s =
          ((s.stopAll.load program.channels).1, [.stop [], .load program.channels], world) := by
        rw [call, if_neg (not_not.mpr harguments)]
        simp only [Sequencer.stop, ne_eq, not_true_eq_false, if_false, hfail, if_true]
      refine .inr (.inl ⟨harguments, ?_, ?_⟩)
      · simpa only [r, Script.exec, Script.answer, hcall] using hfail
      simp only [r, Script.exec, Script.calls, hcall, List.foldl_cons, List.foldl_nil]
      rw [SeqOp.perform_eq natives (.stop []) (by simp),
        SeqOp.perform_eq natives (.load _) (by simp)]
      exact hsame
    · obtain ⟨-, -, loaded, hloaded, hload⟩ := Sequencer.load_ok hok
      obtain ⟨loaded', hloaded', hstart⟩ := startedFrom_eq harguments hok
      rw [Sequencer.loadChannels_stopAll, hloaded'] at hloaded
      obtain rfl := Except.ok.inj hloaded
      have hanswer : (program.call millis arguments world s).1 =
          ((s.stopAll.holding loaded').start arguments (Clock.millis (millis world))).1 := by
        rw [call, if_neg (not_not.mpr harguments)]
        simp only [Sequencer.stop, ne_eq, not_true_eq_false, if_false, hload, Bool.true_eq_false]
      refine .inr (.inr ?_)
      simpa only [r, Script.exec, Script.answer, hanswer] using (hstart (millis world)).1
  · refine .inl ⟨harguments, ?_⟩
    have hcall : program.call millis arguments world s =
        (.fail "usage: [repeat(0|1)]", [], world) := by
      rw [call, if_pos harguments]
    simp only [r, Script.exec, Script.calls, hcall, List.foldl_nil]

end NoobSequenceProgram

/-! ## All seven together -/

/-- The operations that can fail. -/
inductive Attempt
  | set (arguments : Bytes)
  | setMixed (arguments : List Int) (ascii : Bytes)
  | setNumeric (arguments : List Int) (ascii : Bytes) (appendInput : Bool)
  | load (channels : List ChannelDefinition)
  | start (arguments : List Int) (now : Nat)
  | clear (arguments : List Int)
  | compiled (program : NoobSequenceProgram) (arguments : List Int)

namespace Attempt

/-- The answer of an operation and the sequencer after it. -/
def perform {W : Type} (natives : SeqNatives W) (depth : Nat) (millis : W → Nat) (world : W) :
    Attempt → Sequencer → NativeResult × Sequencer
  | .set arguments, s => s.set arguments
  | .setMixed arguments ascii, s => s.setMixed arguments ascii
  | .setNumeric arguments ascii appendInput, s => s.setNumeric arguments ascii appendInput
  | .load channels, s => s.load channels
  | .start arguments now, s => s.start arguments now
  | .clear arguments, s => s.clear arguments
  | .compiled program arguments, s =>
    let r := Script.exec (SeqOp.perform natives depth) (program.call millis arguments) (world, s)
    (r.1, r.2.2)

/-- The operation is none that stops a sequence: it is no compiled sequence, or one that refuses its
arguments, or nothing is playing. -/
def Spares (s : Sequencer) : Attempt → Prop
  | .compiled _ arguments => ¬ (arguments = [] ∨ arguments = [0] ∨ arguments = [1]) ∨ s.Idle
  | _ => True

end Attempt

open Sequencer in
/-- **An operation that fails changes nothing, if and only if it is not a compiled sequence called
while another is playing.** -/
theorem failed_unchanged_iff {W : Type} (natives : SeqNatives W) (depth : Nat) (millis : W → Nat)
    (world : W) (s : Sequencer) (attempt : Attempt)
    (hfail : (attempt.perform natives depth millis world s).1.ok = false) :
    s.Unchanged (attempt.perform natives depth millis world s).2 ↔ attempt.Spares s := by
  have hsame : ∀ s' : Sequencer, s' = s → s.Unchanged s' := by
    rintro s' rfl
    exact .refl s'
  have hedited : ∀ r : NativeResult × Sequencer, r.1.ok = false → Edited s r → s.Unchanged r.2 := by
    rintro r hr (⟨-, h⟩ | ⟨h, -⟩)
    · exact hsame _ h
    · exact absurd (hr.symm.trans h) (by decide)
  cases attempt with
  | set arguments => exact iff_of_true (hedited _ hfail (edited_set ..)) trivial
  | setMixed arguments ascii => exact iff_of_true (hedited _ hfail (edited_setMixed ..)) trivial
  | setNumeric arguments ascii appendInput =>
    exact iff_of_true (hedited _ hfail (edited_setNumeric ..)) trivial
  | load channels =>
    obtain ⟨-, h⟩ | ⟨h, -⟩ := s.load_cases channels
    · exact iff_of_true (hsame _ h) trivial
    · exact absurd (hfail.symm.trans h) (by decide)
  | start arguments now =>
    obtain ⟨-, h⟩ | ⟨h, -⟩ := s.start_cases arguments now
    · exact iff_of_true (hsame _ h) trivial
    · exact absurd (hfail.symm.trans h) (by decide)
  | clear arguments =>
    obtain ⟨-, h⟩ | ⟨h, -⟩ := s.clear_cases arguments
    · exact iff_of_true (hsame _ h) trivial
    · exact absurd (hfail.symm.trans h) (by decide)
  | compiled program arguments =>
    obtain ⟨harguments, h⟩ | ⟨harguments, -, h⟩ | h :=
      program.exec_call_cases natives depth millis arguments world s
    · exact iff_of_true (hsame _ h) (.inl harguments)
    · rw [Attempt.perform, h, unchanged_stopAll_iff, Attempt.Spares]
      simp only [harguments, not_true_eq_false, false_or]
    · exact absurd (hfail.symm.trans h) (by decide)

/-- A sequencer that plays one track refuses to be edited. -/
theorem failed_unchanged_iff_blinking :
    let s := blinking.started true 0
    s.running = true ∧ s.Unchanged ((s.set (.ofAscii "0 200 1 10")).2) :=
  ⟨rfl, (failed_unchanged_iff (⟨[]⟩ : SeqNatives Unit) 0 (fun _ ↦ 0) () (blinking.started true 0)
    (.set (.ofAscii "0 200 1 10")) rfl).mpr trivial⟩

/-- A compiled sequence whose function is not registered is called while another plays: it fails,
and the other has been stopped. -/
theorem failed_call_stops :
    let s := blinking.started true 0
    let attempt := Attempt.compiled
      ⟨[{ functionId := 999, intervalMs := 200, bits := [1, 0] }]⟩ []
    let r := attempt.perform (⟨[]⟩ : SeqNatives Unit) 0 (fun _ ↦ 0) () s
    r.1.ok = false ∧ s.running = true ∧ r.2.running = false := by
  decide +kernel

end Noobia
