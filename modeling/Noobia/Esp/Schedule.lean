import Noobia.Lib.Clock
import Noobia.Lib.Trace
import Noobia.Sequence.History
import Noobia.Thread.Sampling
import Noobia.Vm.Edits
import Noobia.Vm.Exact

/-!
# Three schedulers on one clock

A waiting VM, a running thread and an active track each keep a deadline, and each tick asks whether
it has passed.  The deadlines are readings of `millis()`, which starts anew every 49 days.

Here the three are executed with a `Clock.Watch` beside them, which sees the true time.  It sets an
alarm where the code writes a deadline, for the true time of the reading the code takes then:

* a VM, where it executes a wait instruction, with the delay in the instruction;
* a thread and a track, where they are started, with no delay at all, so that the first step of a
  thread and the first bit of a track are due at once (`first_step_at_once`);
* a thread where it takes a step, with its interval, from the second reading of `tick`;
* a track where its bit has been played, with its interval, from the one reading of `tick`.

At every tick the watch notes for each deadline that is kept whether the code found it passed, in
the branch that the code takes.  `fires_exactly` says that this is so when the alarm's time is over
and not before.  The watch is only looked on: `Machine.timed_forget`, `ThreadOp.timed_forget` and
`SeqOp.timed_forget` give back the executions without it.
-/

namespace Noobia

open List Function

open Clock

variable {W : Type}

/-! ## The VM -/

variable {m : Machine W}

namespace Vm

open Proc VmProc

/-- While the VM waits, it does so for a time an instruction can give. -/
def Delayed (now : Nat) (vm : NoobVm) : Prop :=
  vm.state = .waiting → ∃ delay < 2 ^ 16, vm.wakeAt = (now + delay) % 2 ^ 32

/-- A call from outside does not make the VM wait, and does not touch the time it waits for. -/
theorem perform_waiting (c : VmCall) {vm : NoobVm} (h : (c.perform vm).state = .waiting) :
    vm.state = .waiting ∧ (c.perform vm).wakeAt = vm.wakeAt := by
  have hdone := c.performed vm
  generalize c.perform vm = vm' at hdone h ⊢
  cases hdone with
  | refused => exact ⟨h, rfl⟩
  | load | run | stop | reset => cases h

theorem Delayed.edit {P : Int → Prop} {now : Nat} {vm vm' : NoobVm} (h : Delayed now vm)
    (hedit : Edit P now vm vm') : Delayed now vm' := by
  cases hedit with
  | pc pc | register index hvalue | memory memory | stack returnStack stackDepth pc => exact h
  | halt hrun | fault hmessage => exact nofun
  | wait hdelay hrun => exact fun _ ↦ ⟨_, hdelay, rfl⟩
  | call c hstate =>
    intro hwait
    obtain ⟨hbefore, hwake⟩ := perform_waiting c hwait
    rw [hwake]
    exact h hbefore

/-- Only the wait instruction looks at the clock. -/
theorem execute_now (natives : VmNatives W) {opcode : Nat} (h : opcode ≠ 0x21) (now now' : Nat) :
    execute natives now opcode = execute natives now' opcode := by
  simp only [execute, if_neg h]

/-- So no other instruction makes the VM wait: it would wake up at the same time whenever it is
executed. -/
theorem execute_not_waiting (natives : VmNatives W) (now : Nat) {opcode : Nat} (h : opcode ≠ 0x21)
    (hrun : m.vm.state = .running) :
    Wp (execute natives now opcode) (fun _ m' ↦ m'.vm.state ≠ .waiting)
      (fun m' ↦ m'.vm.state ≠ .waiting) m := by
  have hdelayed : ∀ now' : Nat, Delayed now' ((execute natives now opcode).final m).vm := by
    intro now'
    rw [execute_now natives h now now']
    have hends : Ends (fun _ ↦ True) now' (execute natives now' opcode) :=
      ends_execute (fun _ _ _ _ _ _ ↦ trivial) opcode
    have hedits : Edits _ now' m.vm ((execute natives now' opcode).final m).vm :=
      Wp.final (hends m hrun)
    refine hedits.invariant (fun _ _ h hedit ↦ h.edit hedit) ?_
    rw [Delayed, hrun]
    exact nofun
  have hstate : ((execute natives now opcode).final m).vm.state ≠ .waiting := by
    intro hwait
    obtain ⟨delay, hlt, hwake⟩ := hdelayed 0 hwait
    obtain ⟨delay', hlt', hwake'⟩ := hdelayed (2 ^ 17) hwait
    omega
  exact (wp_final _ m).mono (fun _ _ h ↦ h ▸ hstate) fun _ h ↦ h ▸ hstate

/-- **What makes the VM wait is the wait instruction.** -/
theorem step_waiting {natives : VmNatives W} {now : Nat}
    (hlength : m.vm.programLength ≤ 1024) (hrun : m.vm.state = .running)
    (hwait : (m.step natives now).vm.state = .waiting) :
    m.vm.operand 0 = 0x21 ∧ (m.step natives now).vm.wakeAt =
      (now + (m.vm.operand 1 + 256 * m.vm.operand 2)) % 2 ^ 32 := by
  have hfault : ∀ m' : Machine W, m'.vm.state = .fault → m'.vm.state ≠ .waiting := by
    intro m' hm'
    rw [hm']
    exact nofun
  by_cases hpc : m.vm.pc < m.vm.programLength
  · by_cases hop : m.vm.operand 0 = 0x21
    · by_cases hall : m.vm.pc + 3 ≤ m.vm.programLength
      · rw [step_wait hlength hall hop]
        exact ⟨hop, rfl⟩
      refine absurd hwait (step_at (R := fun m' ↦ m'.vm.state ≠ .waiting) hlength hpc
        fun m' hat ↦ ?_)
      rw [hop]
      exact wp_bind (need_at hat (fun h ↦ absurd h hall) fun _ ↦ hfault)
    · refine absurd hwait (step_at (R := fun m' ↦ m'.vm.state ≠ .waiting) hlength hpc
        fun m' hat ↦ ?_)
      refine execute_not_waiting natives now hop ?_
      rw [hat]
      exact hrun
  · have hat : At m.vm 0 m := rfl
    refine absurd hwait (Wp.final (R := fun m' : Machine W ↦ m'.vm.state ≠ .waiting) ?_)
    exact wp_bind (need_at hat (fun h ↦ absurd h hpc) fun _ ↦ hfault)

end Vm

variable {reading : Nat}

namespace Machine

variable (natives : VmNatives W)

/-- `loop`, at the true time `time`.  The watch sets an alarm for every wait instruction. -/
def timedLoop (time : Nat) : Nat → Machine W × Watch Unit → Machine W × Watch Unit
  | 0, p => p
  | budget + 1, p =>
    if p.1.vm.state = .running then
      timedLoop time budget (p.1.step natives (millis time),
        if p.1.vm.operand 0 = 0x21 then
          p.2.armAll ⟨time, p.1.vm.operand 1 + 256 * p.1.vm.operand 2⟩
        else p.2)
    else p

/-- `wake`, at the true time `time`. -/
def timedWake (time : Nat) (p : Machine W × Watch Unit) : Machine W × Watch Unit :=
  if p.1.vm.state = .waiting then
    if before (millis time) p.1.vm.wakeAt = false then
      (p.1.withVm fun vm ↦ { vm with state := .running }, p.2.check () time true)
    else (p.1, p.2.check () time false)
  else p

/-- One event, at the true times in it. -/
def timed (p : Machine W × Watch Unit) : VmOp → Machine W × Watch Unit
  | .call c => (p.1.withVm c.perform, p.2)
  | .tick budget time time' => timedLoop natives time' budget (timedWake time p)

/-- What a clock shows of an event. -/
def shown : VmOp → VmOp
  | .call c => .call c
  | .tick budget time time' => .tick budget (millis time) (millis time')

theorem timedLoop_forget (time budget : Nat) (p : Machine W × Watch Unit) :
    (timedLoop natives time budget p).1 = p.1.loop natives (millis time) budget := by
  induction budget generalizing p with
  | zero => rfl
  | succ budget ih =>
    rw [timedLoop, loop]
    split
    · exact ih _
    · rfl

theorem timedWake_forget (time : Nat) (p : Machine W × Watch Unit) :
    (timedWake time p).1 = p.1.wake (millis time) := by
  rw [timedWake, wake]
  by_cases hwait : p.1.vm.state = .waiting
  · by_cases hpassed : before (millis time) p.1.vm.wakeAt = false
    · rw [if_pos hwait, if_pos hpassed, if_pos ⟨hwait, hpassed⟩]
    · rw [if_pos hwait, if_neg hpassed, if_neg fun h ↦ hpassed h.2]
  · rw [if_neg hwait, if_neg fun h ↦ hwait h.1]

/-- **The watch is only looked on.** -/
theorem timed_forget (p : Machine W × Watch Unit) (ops : List VmOp) :
    (ops.foldl (timed natives) p).1 = p.1.runOps natives (ops.map shown) := by
  induction ops generalizing p with
  | nil => rfl
  | cons op ops ih =>
    refine (ih _).trans ?_
    rw [map_cons, runOps, runOps, foldl_cons]
    congr 1
    cases op with
    | call c => rfl
    | tick budget time time' =>
      rw [timed, shown, VmOp.perform, tick, timedLoop_forget, timedWake_forget]

/-- The deadline of a VM. -/
def deadline (m : Machine W) (_ : Unit) : Option Nat :=
  if m.vm.state = .waiting then some m.vm.wakeAt else none

theorem deadline_eq_some {i : Unit} :
    m.deadline i = some reading ↔ m.vm.state = .waiting ∧ m.vm.wakeAt = reading := by
  simp [deadline]

variable {natives} {p : Machine W × Watch Unit}

/-- The VM and its watch agree. -/
def OnTime (p : Machine W × Watch Unit) : Prop := Vm.Safe p.1 ∧ p.2.Holds p.1.deadline

theorem OnTime.wake (time : Nat) (h : OnTime p) : OnTime (timedWake time p) := by
  have hsafe : Vm.Safe (p.1.wake (millis time)) :=
    h.1.runOps (NativeRegistry.mk []) [.tick 0 (millis time) 0]
  refine ⟨by rwa [timedWake_forget], ?_⟩
  rw [timedWake]
  split
  · rename_i hwait
    have hkept : p.1.deadline () = some p.1.vm.wakeAt := deadline_eq_some.mpr ⟨hwait, rfl⟩
    split
    · rename_i hpassed
      refine (h.2.check hkept (by rw [hpassed]; rfl)).congr fun i reading hi ↦ ?_
      exact absurd (deadline_eq_some.mp hi).1 nofun
    · rename_i hahead
      exact h.2.check hkept (by rw [Bool.not_eq_false] at hahead; rw [hahead]; rfl)
  · exact h.2

theorem OnTime.loop (time budget : Nat) (h : OnTime p) :
    OnTime (timedLoop natives time budget p) := by
  induction budget generalizing p with
  | zero => exact h
  | succ budget ih =>
    rw [timedLoop]
    split
    · rename_i hrun
      refine ih ⟨h.1.step natives _ hrun, ?_⟩
      split
      · refine h.2.armAll fun i reading hi ↦ ?_
        obtain ⟨hwait, rfl⟩ := deadline_eq_some.mp hi
        rw [(Vm.step_waiting h.1.1.length_le hrun hwait).2, millis_add]
        rfl
      · rename_i hop
        refine h.2.congr fun i reading hi ↦ ?_
        obtain ⟨hwait, -⟩ := deadline_eq_some.mp hi
        exact absurd (Vm.step_waiting h.1.1.length_le hrun hwait).1 hop
    · exact h

theorem OnTime.timed (h : OnTime p) (op : VmOp) : OnTime (timed natives p op) := by
  cases op with
  | call c =>
    refine ⟨h.1.runOps natives [.call c], h.2.congr fun i reading hi ↦ ?_⟩
    obtain ⟨hwait, rfl⟩ := deadline_eq_some.mp hi
    obtain ⟨hbefore, hwake⟩ := Vm.perform_waiting c hwait
    exact deadline_eq_some.mpr ⟨hbefore, hwake.symm⟩
  | tick budget time time' => exact (h.wake time).loop time' budget

/-- **A waiting VM runs again when its time is over.** -/
theorem timed_sound (natives : VmNatives W) (world : W) (ops : List VmOp) :
    (ops.foldl (Machine.timed natives) (Machine.init world, .start)).2.Sound := by
  have hinit : OnTime ((Machine.init world, .start) : Machine W × Watch Unit) :=
    ⟨Vm.safe_init world, Watch.holds_start⟩
  exact (Trace.always_foldl (Trace.always_of_inv (fun _ op h ↦ h.timed op) (fun _ h ↦ h) hinit
    ops)).2.sound

end Machine

/-! ## Threads -/

/-- What happens to a thread.  What a step does to it besides is a publication, a stop or a call. -/
inductive ThreadOp
  /-- `setInterval`, by which a thread of another class changes its interval before it starts. -/
  | setInterval (intervalMs : Nat)
  | call (arguments : List Int) (now : Nat)
  | stop
  | publish (value : Int)
  /-- A tick, with the two readings of the clock it takes. -/
  | tick (now later : Nat)

namespace ThreadOp

/-- One of these. -/
def perform (t : NoobThreadProgram) : ThreadOp → NoobThreadProgram
  | .setInterval intervalMs => { t with intervalMs := intervalMs }
  | .call arguments now => (t.call arguments now).2
  | .stop => t.stop.2
  | .publish value => t.publish value
  | .tick now later => if t.due now then t.rearm later else t

/-- The same, at the true times in it. -/
def timed (p : NoobThreadProgram × Watch Unit) : ThreadOp → NoobThreadProgram × Watch Unit
  | .setInterval intervalMs => ({ p.1 with intervalMs := intervalMs }, p.2)
  | .call arguments time =>
    let (result, program) := p.1.call arguments (millis time)
    (program, if result.ok then p.2.armAll ⟨time, 0⟩ else p.2)
  | .stop => (p.1.stop.2, p.2)
  | .publish value => (p.1.publish value, p.2)
  | .tick time later =>
    if p.1.due (millis time) then
      (p.1.rearm (millis later), (p.2.check () time true).armAll ⟨later, p.1.intervalMs⟩)
    else if p.1.running then (p.1, p.2.check () time false)
    else p

/-- What a clock shows of it. -/
def shown : ThreadOp → ThreadOp
  | .call arguments time => .call arguments (millis time)
  | .tick time later => .tick (millis time) (millis later)
  | op => op

/-- **The watch is only looked on.** -/
theorem timed_forget (p : NoobThreadProgram × Watch Unit) (ops : List ThreadOp) :
    (ops.foldl timed p).1 = (ops.map shown).foldl perform p.1 := by
  induction ops generalizing p with
  | nil => rfl
  | cons op ops ih =>
    refine (ih _).trans ?_
    rw [map_cons, foldl_cons]
    congr 1
    cases op with
    | tick time later =>
      rw [timed, shown, perform]
      split
      · rfl
      split
      · rfl
      · rfl
    | _ => rfl

/-- The deadline of a thread. -/
def deadline (t : NoobThreadProgram) (_ : Unit) : Option Nat :=
  if t.running then some t.nextAt else none

theorem deadline_eq_some {t : NoobThreadProgram} {i : Unit} :
    deadline t i = some reading ↔ t.running = true ∧ t.nextAt = reading := by
  simp [deadline]

theorem call_cases (t : NoobThreadProgram) (arguments : List Int) (now : Nat) :
    ((t.call arguments now).1.ok = false ∧ (t.call arguments now).2 = t) ∨
      ((t.call arguments now).1.ok = true ∧ (t.call arguments now).2.nextAt = now) := by
  rw [NoobThreadProgram.call]
  split
  · exact .inl ⟨rfl, rfl⟩
  · exact .inr ⟨rfl, rfl⟩

theorem holds_timed {p : NoobThreadProgram × Watch Unit} (h : p.2.Holds (deadline p.1))
    (op : ThreadOp) : (timed p op).2.Holds (deadline (timed p op).1) := by
  cases op with
  | setInterval intervalMs | publish value => exact h
  | call arguments time =>
    rw [timed]
    rcases call_cases p.1 arguments (millis time) with ⟨hrefused, hsame⟩ | ⟨hok, hnext⟩
    · dsimp only
      rw [hrefused, hsame]
      exact h
    dsimp only
    rw [hok, if_pos rfl]
    refine h.armAll fun i reading hi ↦ ?_
    rw [← (deadline_eq_some.mp hi).2, hnext]
    rfl
  | stop => exact h.congr fun i reading hi ↦ absurd (deadline_eq_some.mp hi).1 nofun
  | tick time later =>
    have hkept : p.1.running = true → deadline p.1 () = some p.1.nextAt := fun hrun ↦
      deadline_eq_some.mpr ⟨hrun, rfl⟩
    rw [timed]
    split
    · rename_i hdue
      rw [NoobThreadProgram.due, Bool.and_eq_true] at hdue
      refine (h.check (hkept hdue.1) hdue.2.symm).armAll fun i reading hi ↦ ?_
      rw [← (deadline_eq_some.mp hi).2]
      exact millis_add later p.1.intervalMs
    · rename_i hdue
      split
      · rename_i hrun
        refine h.check (hkept hrun) ?_
        rw [NoobThreadProgram.due, hrun, Bool.true_and] at hdue
        exact (Bool.eq_false_iff.mpr hdue).symm
      · exact h

/-- **A thread takes a step when its time is over.** -/
theorem timed_sound (intervalMs : Nat) (ops : List ThreadOp) :
    (ops.foldl timed ({ intervalMs := intervalMs }, .start)).2.Sound := by
  have hkeep : ∀ (p : NoobThreadProgram × Watch Unit) (op : ThreadOp),
      p.2.Holds (deadline p.1) → (timed p op).2.Holds (deadline (timed p op).1) :=
    fun _ op h ↦ holds_timed h op
  exact (Trace.always_foldl (Trace.always_of_inv hkeep (fun _ h ↦ h) Watch.holds_start ops)).sound

end ThreadOp

/-! ## Tracks -/

namespace SequenceRunner

open Proc

variable (natives : SeqNatives W)
  (perform : SeqOp → (W × Watch Slot) × Sequencer → (W × Watch Slot) × Sequencer)

/-- The watch notes what the tick finds for a track. -/
def look (slot : Slot) (time : Nat) (fired : Bool) (t : Tick (W × Watch Slot)) :
    Tick (W × Watch Slot) :=
  { t with world := (t.world.1, t.world.2.check slot time fired) }

/-- The track goes on to its next bit, and the watch sets its alarm. -/
def rearm (time : Nat) (slot : Slot) (t : Tick (W × Watch Slot)) : Tick (W × Watch Slot) :=
  { t with
    world := (t.world.1, t.world.2.arm slot ⟨time, (t.seq.tracks slot).intervalMs⟩)
    seq := t.seq.advance (millis time) slot }

/-- `service`, at the true time `time`. -/
def timedService (time : Nat) (slot : Slot) : Proc (Tick (W × Watch Slot)) Unit := do
  let track ← Proc.read fun t ↦ t.seq.tracks slot
  if track.active = false ∨ before (millis time) track.nextAt = true then
    if track.active = false then pure () else Proc.change (look slot time false)
  else
    Proc.change (look slot time true)
    Proc.change (invoke (natives.beside (Watch Slot)) perform slot)
    let lastOk ← Proc.read fun t ↦ (t.seq.tracks slot).channel.lastOk
    if lastOk = false then
      Proc.change (error slot)
      Proc.exit
    else Proc.change (rearm time slot)

/-- `services`, at the true time `time`. -/
def timedServices (time : Nat) : List Slot → Proc (Tick (W × Watch Slot)) Unit
  | [] => pure ()
  | slot :: slots => do
    timedService natives perform time slot
    timedServices time slots

/-- `tick`, at the true time `time`. -/
def timedTick (time : Nat) (p : (W × Watch Slot) × Sequencer) : Tick (W × Watch Slot) :=
  if p.2.running = false then { world := p.1, seq := p.2 }
  else
    (do timedServices natives perform time (List.finRange 4)
        Proc.change finish).final { world := p.1, seq := p.2 }

end SequenceRunner

/-- A start that is accepted sets all alarms; no other operation does. -/
def SeqOp.arming : SeqOp → Sequencer → Watch Slot → Watch Slot
  | .start arguments time, s, w =>
    if (s.start arguments (millis time)).1.ok then w.armAll ⟨time, 0⟩ else w
  | _, _, w => w

/-- `SeqOp.perform`, at the true times in the operations. -/
def SeqOp.timed (natives : SeqNatives W) :
    Nat → SeqOp → (W × Watch Slot) × Sequencer → (W × Watch Slot) × Sequencer
  | 0, op, p => ((p.1.1, op.arming p.2 p.1.2), op.effect p.2)
  | depth + 1, .tick time, p =>
    let t := SequenceRunner.timedTick natives (timed natives depth) time p
    (t.world, t.seq)
  | _ + 1, op, p => ((p.1.1, op.arming p.2 p.1.2), op.effect p.2)

namespace SequenceRunner

open Proc Script

section

variable {natives : SeqNatives W} {perform : SeqOp → W × Sequencer → W × Sequencer}
  {perform' : SeqOp → (W × Watch Slot) × Sequencer → (W × Watch Slot) × Sequencer}
  (h : ∀ op q, Script.forget (perform' op q) = perform op (Script.forget q))

include h

theorem simulates_timedService (time : Nat) (slot : Slot) :
    Simulates Tick.forget (timedService natives perform' time slot)
      (service natives perform (millis time) slot) := by
  refine (simulates_read fun _ ↦ rfl).bind fun track ↦ simulates_ite ?_ (Simulates.after ?_ ?_)
  · split
    · exact simulates_pure _
    · exact simulates_skip fun _ ↦ rfl
  · refine (simulates_change (invoke_forget h slot)).bind fun _ ↦ ?_
    refine (simulates_read fun _ ↦ rfl).bind fun _ ↦ simulates_ite ?_ (simulates_change fun _ ↦ rfl)
    have herror : ∀ t : Tick (W × Watch Slot), error slot t.forget = (error slot t).forget :=
      fun _ ↦ rfl
    exact (simulates_change herror).bind fun _ ↦ simulates_exit
  · exact fun _ ↦ rfl

theorem simulates_timedServices (time : Nat) (slots : List Slot) :
    Simulates Tick.forget (timedServices natives perform' time slots)
      (services natives perform (millis time) slots) := by
  induction slots with
  | nil => exact simulates_pure _
  | cons slot slots ih => exact (simulates_timedService h time slot).bind fun _ ↦ ih

theorem timedTick_forget (time : Nat) (p : (W × Watch Slot) × Sequencer) :
    tick natives perform (millis time) (Script.forget p) =
      (timedTick natives perform' time p).forget := by
  have hfrom : Simulates Tick.forget
      (do timedServices natives perform' time (List.finRange 4); Proc.change finish)
      (tickFrom natives perform (millis time) (List.finRange 4)) :=
    (simulates_timedServices h time _).bind fun _ ↦ simulates_change finish_forget
  rw [tick, timedTick, Script.forget]
  dsimp only
  split
  · rfl
  · exact hfrom.final { world := p.1, seq := p.2 }

end

end SequenceRunner

/-- **The watch is only looked on.** -/
theorem SeqOp.timed_forget (natives : SeqNatives W) (depth : Nat) (op : SeqOp)
    (p : (W × Watch Slot) × Sequencer) :
    Script.forget (op.timed natives depth p) = op.perform natives depth (Script.forget p) := by
  induction depth generalizing op p with
  | zero => rfl
  | succ depth ih =>
    cases op with
    | tick time =>
      have htick : SequenceRunner.tick natives (perform natives depth) _ _ = _ :=
        SequenceRunner.timedTick_forget ih time p
      rw [timed, perform, htick]
      rfl
    | _ => rfl

namespace Sequencer

variable {s s' : Sequencer} {w : Watch Slot}

/-- The deadlines of the tracks. -/
def deadline (s : Sequencer) (slot : Slot) : Option Nat :=
  if (s.tracks slot).active then some (s.tracks slot).nextAt else none

theorem deadline_eq_some {slot : Slot} :
    s.deadline slot = some reading ↔
      (s.tracks slot).active = true ∧ (s.tracks slot).nextAt = reading := by
  simp [deadline]

theorem holds_of_inactive (h : w.Holds s.deadline) (hidle : ∀ i, (s'.tracks i).active = false) :
    w.Holds s'.deadline := by
  refine h.congr fun i reading hi ↦ ?_
  exact absurd ((hidle i).symm.trans (deadline_eq_some.mp hi).1) Bool.false_ne_true

theorem holds_setTrack (h : w.Holds s.deadline) (slot : Slot) {track : Track}
    (hidle : track.active = false) : w.Holds (s.setTrack slot track).deadline := by
  refine h.congr fun i reading hi ↦ ?_
  rw [deadline_eq_some, setTrack_tracks] at hi
  by_cases hslot : i = slot
  · rw [hslot, update_self, hidle] at hi
    exact absurd hi.1 Bool.false_ne_true
  · rw [update_of_ne hslot] at hi
    exact deadline_eq_some.mpr hi

theorem holds_updateChannel (h : w.Holds s.deadline) (slot : Slot)
    (f : NoobProgramChannel → NoobProgramChannel) : w.Holds (s.updateChannel slot f).deadline := by
  refine h.congr fun i reading hi ↦ ?_
  rw [deadline_eq_some, updateChannel, setTrack_tracks] at hi
  by_cases hslot : i = slot
  · rw [hslot, update_self] at hi
    exact deadline_eq_some.mpr (hslot ▸ hi)
  · rw [update_of_ne hslot] at hi
    exact deadline_eq_some.mpr hi

theorem Edited.holds {r : NativeResult × Sequencer} (he : Edited s r) (h : w.Holds s.deadline) :
    w.Holds r.2.deadline := by
  rcases he with ⟨-, hr⟩ | ⟨-, -, slot, -, track, -, hidle, hr⟩
  · rwa [hr]
  · rw [hr]
    exact holds_setTrack h slot hidle

/-- A track that goes on is due an interval after the tick. -/
theorem holds_advance (h : w.Holds s.deadline) (time : Nat) (slot : Slot) :
    (w.arm slot ⟨time, (s.tracks slot).intervalMs⟩).Holds
      (s.advance (millis time) slot).deadline := by
  refine h.arm (fun reading hi ↦ ?_) fun i reading hne hi ↦ ?_
  · rw [deadline_eq_some, advance_tracks, update_self, Track.advance_nextAt,
      millis_add] at hi
    exact hi.2.symm
  · rw [deadline_eq_some, advance_tracks, update_of_ne hne] at hi
    exact deadline_eq_some.mpr hi

end Sequencer

namespace SeqOp

open Sequencer

/-- Only a start that is accepted gives a track a deadline it did not have. -/
theorem holds_effect (op : SeqOp) {s : Sequencer} {w : Watch Slot} (h : w.Holds s.deadline) :
    (op.arming s w).Holds (op.effect s).deadline := by
  cases op with
  | set arguments => exact (edited_set arguments).holds h
  | setMixed arguments ascii => exact (edited_setMixed arguments ascii).holds h
  | setNumeric arguments ascii appendInput =>
    exact (edited_setNumeric arguments ascii appendInput).holds h
  | load channels =>
    rw [arming, effect]
    obtain ⟨-, h'⟩ | ⟨-, -, -, -, loaded, hloaded, h'⟩ := s.load_cases channels
    · rwa [h']
    · rw [h']
      exact holds_of_inactive h fun i ↦ (holding_tracks hloaded i).2
    · rintro - - ⟨⟩
  | start arguments time =>
    rw [arming, effect]
    obtain ⟨hfail, h'⟩ | ⟨hok, -, -, h'⟩ := s.start_cases arguments (millis time)
    · rwa [hfail, h']
    · rw [hok, if_pos rfl, h']
      exact h.armAll fun i reading hi ↦ (deadline_eq_some.mp hi).2.symm
  | stop arguments =>
    rw [arming, effect, Sequencer.stop]
    split
    · exact h
    · exact holds_of_inactive h fun _ ↦ rfl
    · rintro - - ⟨⟩
  | clear arguments =>
    rw [arming, effect]
    obtain ⟨-, h'⟩ | ⟨-, -, ⟨-, h'⟩ | ⟨slot, -, h'⟩⟩ := s.clear_cases arguments
    · rwa [h']
    · rw [h']
      exact holds_of_inactive h fun _ ↦ rfl
    · rw [h']
      exact holds_setTrack h slot rfl
    · rintro - - ⟨⟩
  | pop arguments =>
    rw [arming, effect, Sequencer.pop]
    split
    · exact h
    · split
      · exact h
      · rename_i slot _ _ record queue _
        exact holds_updateChannel h slot fun c ↦ { c with results := queue }
    · rintro - - ⟨⟩
  | clearQueue arguments =>
    rw [arming, effect, Sequencer.clearQueue]
    split
    · exact h
    · rename_i slot _
      exact holds_updateChannel h slot fun c ↦ { c with results := c.results.clear }
    · rintro - - ⟨⟩
  | tick time => exact h

end SeqOp

namespace SequenceRunner

open Proc Sequencer

section

variable {natives : SeqNatives W}
  {perform : SeqOp → (W × Watch Slot) × Sequencer → (W × Watch Slot) × Sequencer}
  (hperform : ∀ op q, q.1.2.Holds q.2.deadline → (perform op q).1.2.Holds (perform op q).2.deadline)

include hperform

theorem holds_timedService (time : Nat) (slot : Slot) {t : Tick (W × Watch Slot)}
    (h : t.world.2.Holds t.seq.deadline) :
    Wp (timedService natives perform time slot) (fun _ t ↦ t.world.2.Holds t.seq.deadline)
      (fun t ↦ t.world.2.Holds t.seq.deadline) t := by
  have hkept : (t.seq.tracks slot).active = true →
      t.seq.deadline slot = some (t.seq.tracks slot).nextAt := fun hactive ↦
    deadline_eq_some.mpr ⟨hactive, rfl⟩
  refine wp_bind (wp_read (wp_ite (fun hidle ↦ ?_) fun hdue ↦ ?_))
  · refine wp_ite (fun _ ↦ wp_pure h) fun hactive ↦ wp_change ?_
    rw [Bool.not_eq_false] at hactive
    have hbefore := hidle.resolve_left (by rw [hactive]; nofun)
    exact h.check (hkept hactive) (by rw [hbefore]; rfl)
  · rw [not_or, Bool.not_eq_false, Bool.not_eq_true] at hdue
    have hlooked : (t.world.2.check slot time true).Holds t.seq.deadline :=
      h.check (hkept hdue.1) (by rw [hdue.2]; rfl)
    have hcalled := invoke_induction (I := fun w s ↦ w.Holds s.deadline) natives
      hperform (fun w s slot f hs ↦ holds_updateChannel hs slot f) slot
      (t := look slot time true t) hlooked
    refine wp_bind (wp_change (wp_bind (wp_change (wp_bind (wp_read (wp_ite ?_ ?_))))))
    · exact fun _ ↦ wp_bind (wp_change (wp_exit (holds_of_inactive hcalled fun _ ↦ rfl)))
    · exact fun _ ↦ wp_change (holds_advance hcalled time slot)

theorem holds_timedTick (time : Nat) {p : (W × Watch Slot) × Sequencer}
    (h : p.1.2.Holds p.2.deadline) :
    (timedTick natives perform time p).world.2.Holds
      (timedTick natives perform time p).seq.deadline := by
  have hservices : ∀ (slots : List Slot) (t : Tick (W × Watch Slot)),
      t.world.2.Holds t.seq.deadline → Wp (timedServices natives perform time slots)
        (fun _ t ↦ t.world.2.Holds t.seq.deadline) (fun t ↦ t.world.2.Holds t.seq.deadline) t := by
    intro slots
    induction slots with
    | nil => exact fun t ht ↦ wp_pure ht
    | cons slot slots ih =>
      exact fun t ht ↦ wp_bind ((holds_timedService hperform time slot ht).mono
        (fun _ t ht ↦ ih t ht) fun _ ht ↦ ht)
  rw [timedTick]
  split
  · exact h
  refine Wp.final (R := fun t : Tick (W × Watch Slot) ↦ t.world.2.Holds t.seq.deadline)
    (wp_bind ((hservices _ { world := p.1, seq := p.2 } h).mono (fun _ t ht ↦ wp_change ?_)
      fun _ ht ↦ ht))
  rw [finish]
  split
  · exact ht
  · exact ht

end

end SequenceRunner

theorem SeqOp.holds_timed (natives : SeqNatives W) (depth : Nat) (op : SeqOp)
    {p : (W × Watch Slot) × Sequencer} (h : p.1.2.Holds p.2.deadline) :
    (op.timed natives depth p).1.2.Holds (op.timed natives depth p).2.deadline := by
  induction depth generalizing op p with
  | zero => exact op.holds_effect h
  | succ depth ih =>
    cases op with
    | tick time => exact SequenceRunner.holds_timedTick (fun op q hq ↦ ih op hq) time h
    | _ => exact holds_effect _ h

/-- **A track plays its next bit when its time is over.** -/
theorem SeqOp.timed_sound (natives : SeqNatives W) (depth : Nat) (ops : List SeqOp) (world : W)
    (s : Sequencer) (directory : List NativeRegistry.Signature) :
    (ops.foldl (fun p op ↦ SeqOp.timed natives depth op p)
      ((world, Watch.start), s.begin directory)).1.2.Sound := by
  have hkeep : ∀ (p : (W × Watch Slot) × Sequencer) (op : SeqOp), p.1.2.Holds p.2.deadline →
      (op.timed natives depth p).1.2.Holds (op.timed natives depth p).2.deadline :=
    fun _ op h ↦ op.holds_timed natives depth h
  have hstart : (Watch.start : Watch Slot).Holds (s.begin directory).deadline :=
    Watch.holds_start.congr fun i reading hi ↦
      absurd (Sequencer.deadline_eq_some.mp hi).1 Bool.false_ne_true
  have hall := Trace.always_of_inv hkeep (fun _ h ↦ h)
    (show ((world, Watch.start), s.begin directory).1.2.Holds _ from hstart) ops
  exact (Trace.always_foldl hall).sound

/-! ## The three together -/

/-- **Nothing fires too early or too late.**  In any run of a VM, of a thread or of a sequencer,
with any native functions and at any true times, a deadline is found to have passed exactly if the
time since it was set is at least the time it was set for, wherever that is less than half a turn of
the clock and the tick comes less than half a turn after the deadline. -/
theorem fires_exactly (W : Type) :
    (∀ (natives : VmNatives W) (world : W) (ops : List VmOp),
      (ops.foldl (Machine.timed natives) (Machine.init world, .start)).2.Sound) ∧
    (∀ (intervalMs : Nat) (ops : List ThreadOp),
      (ops.foldl ThreadOp.timed ({ intervalMs := intervalMs }, .start)).2.Sound) ∧
    ∀ (natives : SeqNatives W) (depth : Nat) (ops : List SeqOp) (world : W) (s : Sequencer)
      (directory : List NativeRegistry.Signature),
      (ops.foldl (fun p op ↦ SeqOp.timed natives depth op p)
        ((world, Watch.start), s.begin directory)).1.2.Sound :=
  ⟨Machine.timed_sound, ThreadOp.timed_sound, SeqOp.timed_sound⟩

/-- A thread that steps every second is started 600 ms before the clock starts anew. -/
theorem fires_exactly_wrap :
    let ops : List ThreadOp := [.call [] (2 ^ 32 - 600), .tick (2 ^ 32 - 600) (2 ^ 32 - 600),
      .tick (2 ^ 32 + 399) (2 ^ 32 + 399), .tick (2 ^ 32 + 400) (2 ^ 32 + 401)]
    let w := (ops.foldl ThreadOp.timed ({ intervalMs := 1000 }, .start)).2
    w.checks.map Check.fired = [true, false, true] ∧ ∀ c ∈ w.checks, c.Timely ∧ c.Exact := by
  intro ops w
  have htimely : ∀ c ∈ w.checks, c.Timely := by decide
  exact ⟨by decide, fun c hc ↦
    ⟨htimely c hc, (fires_exactly Unit).2.1 1000 ops c hc (htimely c hc)⟩⟩

/-- The first step does not wait: a thread with an interval of 250 ms takes it at a tick in the same
millisecond. -/
theorem first_step_at_once :
    let started := ({ intervalMs := 250 } : NoobThreadProgram).call [] (millis 0)
    started.1.ok = true ∧ started.2.intervalMs = 250 ∧ started.2.due (millis 0) = true := by
  decide

end Noobia
