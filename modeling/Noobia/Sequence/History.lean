import Noobia.Sequence.Refused

/-!
# The history of a sequencer

Whether a record is fresh, or a channel has been active meanwhile, is a question about what was done
to the sequencer before, and by whom does not matter: by a command, or by a native function in the
middle of a tick.  So an execution is given a `History` here, the list of all operations carried out
with the sequencer each of them found.  It is kept beside the world of the native functions, where
they cannot see it, and `record_forget` says that forgetting it gives back the execution of
`Noobia.Sequence.Service`.

Between two operations a tick makes changes of its own, and `Turn` is the list of these.
`history_induction` is the rule for properties of a history and the sequencer it leads to.
-/

namespace Noobia

/-- The operations carried out so far, each with the sequencer it found. -/
abbrev History := List (SeqOp × Sequencer)

variable {W : Type}

/-! ## Recording -/

/-- `SeqOp.perform`, with every operation added to the history. -/
def SeqOp.record (natives : SeqNatives W) :
    Nat → SeqOp → (W × History) × Sequencer → (W × History) × Sequencer
  | 0, op, p => ((p.1.1, p.1.2 ++ [(op, p.2)]), op.effect p.2)
  | depth + 1, .tick now, p =>
    let t := SequenceRunner.tick (natives.beside History) (record natives depth)
      (Clock.millis now) p
    (t.world, t.seq)
  | _ + 1, op, p => ((p.1.1, p.1.2 ++ [(op, p.2)]), op.effect p.2)

/-- A whole history of operations, recorded. -/
def SeqOp.recordOps (natives : SeqNatives W) (depth : Nat) (ops : List SeqOp)
    (p : (W × History) × Sequencer) : (W × History) × Sequencer :=
  ops.foldl (fun p op ↦ op.record natives depth p) p

/-- A tick with the history forgotten. -/
def Tick.forget {G : Type} (t : Tick (W × G)) : Tick W :=
  { world := t.world.1, seq := t.seq, invoked := t.invoked, event := t.event, calls := t.calls }

namespace SequenceRunner

open Proc Script

theorem finish_forget {G : Type} (t : Tick (W × G)) : finish t.forget = (finish t).forget := by
  by_cases hend : t.invoked = true ∧ t.seq.activeCount = 0
  · simp only [finish, Tick.forget, hend, and_self, if_true]
  · simp only [finish, Tick.forget, hend, if_false]

section

variable {G : Type} {natives : SeqNatives W} {perform : SeqOp → W × Sequencer → W × Sequencer}
  {perform' : SeqOp → (W × G) × Sequencer → (W × G) × Sequencer}
  (h : ∀ op q, Script.forget (perform' op q) = perform op (Script.forget q))

include h

theorem invoke_forget (slot : Slot) (t : Tick (W × G)) :
    invoke natives perform slot t.forget = (invoke (natives.beside G) perform' slot t).forget := by
  rw [invoke, invoke, NativeRegistry.find_beside]
  dsimp only [Tick.forget]
  cases natives.find (t.seq.tracks slot).channel.functionId with
  | none => rfl
  | some entry =>
    dsimp only [Option.map_some]
    rw [NativeRegistry.callMixed_beside]
    obtain ⟨hanswer, hstate⟩ := exec_beside h
      (NativeRegistry.callMixed entry ((t.seq.tracks slot).channel.callArguments
        (t.seq.tracks slot).input (t.seq.tracks slot).appendInput)
      (t.seq.tracks slot).channel.ascii)
      (t.world, t.seq.updateChannel slot fun c ↦ { c with busy := true })
    have hworld := congrArg Prod.fst hstate
    have hseq := congrArg Prod.snd hstate
    dsimp only [Script.forget] at hanswer hworld hseq
    rw [hanswer, ← hworld, ← hseq]

theorem simulates_service (now : Nat) (slot : Slot) :
    Simulates Tick.forget (service (natives.beside G) perform' now slot)
      (service natives perform now slot) := by
  refine (simulates_read fun _ ↦ rfl).bind fun track ↦ simulates_ite (simulates_pure _) ?_
  refine (simulates_change (invoke_forget h slot)).bind fun _ ↦ ?_
  refine (simulates_read fun _ ↦ rfl).bind fun _ ↦ simulates_ite ?_ (simulates_change fun _ ↦ rfl)
  have herror : ∀ t : Tick (W × G), error slot t.forget = (error slot t).forget := fun _ ↦ rfl
  exact (simulates_change herror).bind fun _ ↦ simulates_exit

theorem simulates_services (now : Nat) (slots : List Slot) :
    Simulates Tick.forget (services (natives.beside G) perform' now slots)
      (services natives perform now slots) := by
  induction slots with
  | nil => exact simulates_pure _
  | cons slot slots ih => exact (simulates_service h now slot).bind fun _ ↦ ih

theorem tick_forget (now : Nat) (p : (W × G) × Sequencer) :
    tick natives perform now (Script.forget p) =
      (tick (natives.beside G) perform' now p).forget := by
  have hfrom : Simulates Tick.forget
      (tickFrom (natives.beside G) perform' now (List.finRange 4))
      (tickFrom natives perform now (List.finRange 4)) :=
    (simulates_services h now _).bind fun _ ↦ simulates_change finish_forget
  rw [tick, tick, Script.forget]
  dsimp only
  split
  · rfl
  · exact hfrom.final { world := p.1, seq := p.2 }

end

end SequenceRunner

namespace SeqOp

variable (natives : SeqNatives W)

theorem record_forget (depth : Nat) (op : SeqOp) (p : (W × History) × Sequencer) :
    Script.forget (op.record natives depth p) = op.perform natives depth (Script.forget p) := by
  induction depth generalizing op p with
  | zero => rfl
  | succ depth ih =>
    cases op with
    | tick now =>
      have htick : SequenceRunner.tick natives (perform natives depth) _ _ = _ :=
        SequenceRunner.tick_forget ih (Clock.millis now) p
      rw [record, perform, htick]
      rfl
    | _ => rfl

/-- **Forgetting the history gives back the execution.** -/
theorem recordOps_forget (depth : Nat) (ops : List SeqOp) (p : (W × History) × Sequencer) :
    Script.forget (recordOps natives depth ops p) = runOps natives depth ops (Script.forget p) := by
  induction ops generalizing p with
  | nil => rfl
  | cons op ops ih => exact (ih (op.record natives depth p)).trans (by rw [record_forget]; rfl)

end SeqOp

/-! ## Induction over a history -/

/-- The changes a tick makes on its own. -/
inductive Turn (s : Sequencer) : Sequencer → Prop
  /-- A channel is marked busy, or the outcome of its call is written down. -/
  | channel (slot : Slot) (f : NoobProgramChannel → NoobProgramChannel) :
    Turn s (s.updateChannel slot f)
  /-- The sequence ends with an error. -/
  | stop : Turn s s.stopAll
  /-- A track goes on to its next bit. -/
  | advance (now : Nat) (slot : Slot) : Turn s (s.advance now slot)
  /-- The sequence is over. -/
  | finish : Turn s { s with running := false }

section

open Proc

/-- What the operations of native functions and writing to channels keep, a call of the sequencer
keeps, for anything that is recorded beside the world. -/
theorem SequenceRunner.invoke_induction {G : Type} {I : G → Sequencer → Prop}
    (natives : SeqNatives W) {perform : SeqOp → (W × G) × Sequencer → (W × G) × Sequencer}
    (hperform : ∀ op q, I q.1.2 q.2 → I (perform op q).1.2 (perform op q).2)
    (hchannel : ∀ g s slot f, I g s → I g (Sequencer.updateChannel s slot f)) (slot : Slot)
    {t : Tick (W × G)} (h : I t.world.2 t.seq) :
    I (invoke (natives.beside G) perform slot t).world.2
      (invoke (natives.beside G) perform slot t).seq := by
  have hbusy := hchannel _ _ slot (fun c ↦ { c with busy := true }) h
  rw [invoke, NativeRegistry.find_beside]
  cases natives.find (t.seq.tracks slot).channel.functionId with
  | none => exact hchannel _ _ slot _ hbusy
  | some entry =>
    dsimp only [Option.map_some]
    rw [NativeRegistry.callMixed_beside]
    refine hchannel _ _ slot _ ?_
    exact Script.exec_induction (I := fun q ↦ I q.1.2 q.2) perform hperform
      (p := (t.world, t.seq.updateChannel slot _)) hbusy

variable {I : History → Sequencer → Prop} {natives : SeqNatives W} {p : (W × History) × Sequencer}

/-- What the changes of a tick and the operations of its native functions keep, the tick keeps. -/
theorem SequenceRunner.tick_induction
    {perform : SeqOp → (W × History) × Sequencer → (W × History) × Sequencer}
    (hperform : ∀ op q, I q.1.2 q.2 → I (perform op q).1.2 (perform op q).2)
    (hturn : ∀ log s s', Turn s s' → I log s → I log s') (now : Nat) (h : I p.1.2 p.2) :
    let t := tick (natives.beside History) perform now p
    I t.world.2 t.seq := by
  have hinvoke : ∀ slot (t : Tick (W × History)), I t.world.2 t.seq →
      I (invoke (natives.beside History) perform slot t).world.2
        (invoke (natives.beside History) perform slot t).seq := fun slot _ ht ↦
    invoke_induction natives hperform (fun _ _ slot f h ↦ hturn _ _ _ (.channel slot f) h) slot ht
  have hservices : ∀ (slots : List Slot) (t : Tick (W × History)), I t.world.2 t.seq →
      Wp (services (natives.beside History) perform now slots) (fun _ t ↦ I t.world.2 t.seq)
        (fun t ↦ I t.world.2 t.seq) t := by
    intro slots
    induction slots with
    | nil => exact fun t ht ↦ wp_pure ht
    | cons slot slots ih =>
      intro t ht
      refine wp_bind (wp_bind (wp_read (wp_ite (fun _ ↦ wp_pure (ih t ht)) fun _ ↦ ?_)))
      refine wp_bind (wp_change (wp_bind (wp_read (wp_ite (fun _ ↦ ?_) fun _ ↦ ?_))))
      · exact wp_bind (wp_change (wp_exit (hturn _ _ _ .stop (hinvoke slot t ht))))
      · exact wp_change (ih _ (hturn _ _ _ (.advance now slot) (hinvoke slot t ht)))
  intro t
  rw [show t = tick (natives.beside History) perform now p from rfl, tick]
  split
  · exact h
  refine Wp.final (R := fun t : Tick (W × History) ↦ I t.world.2 t.seq) (wp_bind ?_)
  refine (hservices _ { world := p.1, seq := p.2 } h).mono (fun _ t ht ↦ wp_change ?_)
    fun _ ht ↦ ht
  rw [finish]
  split
  · exact hturn _ _ _ .finish ht
  · exact ht

/-- **Induction over a history.** -/
theorem history_induction
    (hop : ∀ log s op, I log s → I (log ++ [(op, s)]) (SeqOp.effect op s))
    (hturn : ∀ log s s', Turn s s' → I log s → I log s') (depth : Nat) (ops : List SeqOp)
    (h : I p.1.2 p.2) :
    I (SeqOp.recordOps natives depth ops p).1.2 (SeqOp.recordOps natives depth ops p).2 := by
  have hrecord : ∀ depth op (p : (W × History) × Sequencer), I p.1.2 p.2 →
      I (SeqOp.record natives depth op p).1.2 (SeqOp.record natives depth op p).2 := by
    intro depth
    induction depth with
    | zero => exact fun op p h ↦ hop _ _ op h
    | succ depth ih =>
      intro op p h
      cases op with
      | tick now => exact SequenceRunner.tick_induction ih hturn _ h
      | _ => exact hop _ _ _ h
  induction ops generalizing p with
  | nil => exact h
  | cons op ops ih => exact ih (hrecord depth op p h)

end

end Noobia
