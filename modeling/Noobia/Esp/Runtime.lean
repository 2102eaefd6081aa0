import Noobia.Esp.Protocol
import Noobia.Esp.Transport

/-!
# The runtime

`NoobRuntime::loop` gives the VM a bounded number of instructions and then asks every transport for
a line, which it has the dispatcher carry out.  Bytes come in between one pass and the next.  The
background services are not part of the model.

As long as the VM is not in the middle of a program a pass is nothing but the lines it is handed.
`NoobRuntime.run_alone` draws the conclusion: with one transport, whatever the pieces in which bytes
come in and whatever the passes between them, the dispatcher carries out the lines of the stream one
after the other.
-/

namespace Noobia

open List

variable {W : Type}

/-- `NoobRuntime`. -/
structure NoobRuntime (W : Type) where
  dispatcher : CommandDispatcher W
  /-- `vm_`, and the world of the native functions. -/
  machine : Machine W
  transports : List LineTransport

/-- What happens to a Noob. -/
inductive NoobEvent
  | arrive (transport : Nat) (bytes : Bytes)
  /-- A pass of the main loop; the numbers are the clock readings the VM takes. -/
  | loop (now waitNow : Nat)
  deriving DecidableEq

namespace NoobRuntime

/-- One transport's turn in `loop`. -/
def serve (d : CommandDispatcher W) (t : LineTransport) (m : Machine W) :
    LineTransport × Machine W :=
  match t.receive with
  | (none, t) => (t, m)
  | (some frame, t) => (t.send (d.handle frame m).1, (d.handle frame m).2)

/-- The transports take their turns. -/
def serveAll (d : CommandDispatcher W) :
    List LineTransport → Machine W → List LineTransport × Machine W
  | [], m => ([], m)
  | t :: transports, m =>
    let (t, m) := serve d t m
    let (transports, m) := serveAll d transports m
    (t :: transports, m)

def loop (r : NoobRuntime W) (now waitNow : Nat) : NoobRuntime W :=
  let m := r.machine.tick r.dispatcher.natives 32 now waitNow
  let (transports, machine) := serveAll r.dispatcher r.transports m
  { r with transports, machine }

/-- One event. -/
def happen (r : NoobRuntime W) : NoobEvent → NoobRuntime W
  | .arrive transport bytes =>
    { r with transports := r.transports.modify transport (LineTransport.arrive bytes) }
  | .loop now waitNow => r.loop now waitNow

/-- One event after another. -/
def run (r : NoobRuntime W) (events : List NoobEvent) : NoobRuntime W := events.foldl happen r

end NoobRuntime

/-! ## One transport -/

/-- A VM that is not in the middle of a program is left alone. -/
theorem Machine.tick_of_not_busy {m : Machine W} (h : m.vm.busy = false) (natives : VmNatives W)
    (budget now waitNow : Nat) : m.tick natives budget now waitNow = m := by
  have hstate : m.vm.state ≠ .running ∧ m.vm.state ≠ .waiting := by
    simpa [NoobVm.busy] using h
  have hwake : m.wake now = m := by
    rw [Machine.wake, if_neg fun hwaiting ↦ hstate.2 hwaiting.1]
  rw [Machine.tick, hwake]
  cases budget with
  | zero => rfl
  | succ budget => rw [Machine.loop, if_neg hstate.1]

namespace NoobRuntime

/-- The bytes that come in over the first transport. -/
def arrivals (events : List NoobEvent) : Bytes :=
  events.flatMap fun e ↦
    match e with
    | .arrive 0 bytes => bytes
    | _ => []

/-- The frames are carried out one after the other. -/
def handleAll (d : CommandDispatcher W) (frames : List Bytes) (m : Machine W) : Machine W :=
  frames.foldl (fun m frame ↦ (d.handle frame m).2) m

/-- The frame does not set the VM going. -/
def Calm (d : CommandDispatcher W) (frame : Bytes) : Prop :=
  ∀ m : Machine W, m.vm.busy = false → (d.handle frame m).2.vm.busy = false

variable {d : CommandDispatcher W} {t : LineTransport} {m : Machine W}

/-- A pass hands over the next of the lines that are ahead, or none of them. -/
theorem serve_spec (ht : t.Attached) (more : Bytes) :
    (serve d t m).1.Attached ∧ (serve d t m).1.unread.length ≤ t.unread.length - 1 ∧
      t.ahead more = t.receive.1.toList ++ (serve d t m).1.ahead more ∧
      (serve d t m).2 = handleAll d t.receive.1.toList m := by
  have hattached := LineTransport.attached_receive ht
  have hunread := LineTransport.length_unread_receive ht
  have hahead := LineTransport.ahead_receive ht more
  rw [serve]
  rcases hreceive : t.receive with ⟨_ | frame, t'⟩
  · rw [hreceive] at hattached hunread hahead
    exact ⟨hattached, hunread, hahead, rfl⟩
  rw [hreceive] at hattached hunread hahead
  refine ⟨LineTransport.attached_send hattached _, ?_, ?_, rfl⟩
  · rw [LineTransport.unread_send]
    exact hunread
  · rw [LineTransport.ahead_send]
    exact hahead

/-- What is the same all along: the outcome, when everything will have been read. -/
structure Underway (d : CommandDispatcher W) (more : Bytes) (outcome : Machine W)
    (t : LineTransport) (m : Machine W) : Prop where
  attached : t.Attached
  idle : m.vm.busy = false
  calm : ∀ frame ∈ t.ahead more, Calm d frame
  outcome : handleAll d (t.ahead more) m = outcome

variable {more : Bytes} {outcome : Machine W} (events : List NoobEvent)

theorem Underway.arrive {bytes : Bytes} (h : Underway d (bytes ++ more) outcome t m) :
    Underway d more outcome (t.arrive bytes) m := by
  have hahead := LineTransport.ahead_arrive h.attached bytes more
  refine ⟨LineTransport.attached_arrive h.attached bytes, h.idle, ?_, ?_⟩
  · rw [hahead]
    exact h.calm
  · rw [hahead]
    exact h.outcome

theorem Underway.serve (h : Underway d more outcome t m) :
    Underway d more outcome (serve d t m).1 (serve d t m).2 := by
  obtain ⟨hattached, -, hahead, hmachine⟩ := serve_spec (d := d) (m := m) h.attached more
  have hcalm := h.calm
  have houtcome := h.outcome
  rw [hahead] at hcalm houtcome
  refine ⟨hattached, ?_, fun frame hframe ↦ hcalm frame (mem_append_right _ hframe), ?_⟩
  · rw [hmachine]
    rcases hframe : t.receive.1 with _ | frame
    · exact h.idle
    refine hcalm frame (mem_append_left _ ?_) m h.idle
    rw [hframe]
    exact mem_singleton_self _
  · rw [handleAll, foldl_append] at houtcome
    rw [hmachine]
    exact houtcome

/-- A pass with one transport and nothing to do for the VM. -/
theorem loop_alone (hidle : m.vm.busy = false) (now waitNow : Nat) :
    (NoobRuntime.mk d m [t]).loop now waitNow = ⟨d, (serve d t m).2, [(serve d t m).1]⟩ := by
  rw [loop, Machine.tick_of_not_busy hidle]
  rfl

/-- **Pieces and passes make no difference.**  As long as the frames leave the VM idle, there is
always the same outcome. -/
theorem run_underway (h : Underway d (arrivals events ++ more) outcome t m) :
    ∃ t' m', (NoobRuntime.mk d m [t]).run events = ⟨d, m', [t']⟩ ∧
      Underway d more outcome t' m' ∧
      t'.unread.length ≤ t.unread.length + (arrivals events).length := by
  induction events generalizing t m with
  | nil => exact ⟨t, m, rfl, h, Nat.le_refl _⟩
  | cons e events ih =>
    have hcons (hnone : arrivals (e :: events) = arrivals events)
        (hstep : ∃ t' m', (NoobRuntime.mk d m [t]).happen e = ⟨d, m', [t']⟩ ∧
          Underway d (arrivals events ++ more) outcome t' m' ∧ t'.unread.length ≤ t.unread.length) :
        ∃ t' m', (NoobRuntime.mk d m [t]).run (e :: events) = ⟨d, m', [t']⟩ ∧
          Underway d more outcome t' m' ∧
          t'.unread.length ≤ t.unread.length + (arrivals (e :: events)).length := by
      obtain ⟨t', m', hhappen, hunderway, hunread⟩ := hstep
      obtain ⟨t'', m'', hrun, hunderway', hunread'⟩ := ih hunderway
      refine ⟨t'', m'', ?_, hunderway', by rw [hnone]; omega⟩
      rw [run, foldl_cons, hhappen]
      exact hrun
    cases e with
    | loop now waitNow =>
      obtain ⟨-, hunread, -⟩ := serve_spec (d := d) (m := m) h.attached (arrivals events ++ more)
      exact hcons rfl ⟨_, _, loop_alone h.idle now waitNow, h.serve, by omega⟩
    | arrive transport bytes =>
      cases transport with
      | succ transport =>
        have hhappen : (NoobRuntime.mk d m [t]).happen (.arrive (transport + 1) bytes) =
            ⟨d, m, [t]⟩ := by
          rw [happen, modify_succ_cons, modify_nil]
        exact hcons rfl ⟨t, m, hhappen, h, Nat.le_refl _⟩
      | zero =>
        have harrivals : arrivals (.arrive 0 bytes :: events) = bytes ++ arrivals events := rfl
        rw [harrivals, append_assoc] at h
        have hlength := LineTransport.length_unread_arrive h.attached bytes
        obtain ⟨t', m', hrun, hunderway, hunread⟩ := ih h.arrive
        refine ⟨t', m', hrun, hunderway, ?_⟩
        rw [harrivals, length_append]
        omega

/-- When there have been enough passes everything has been read. -/
theorem run_loops (passes : List (Nat × Nat)) (h : Underway d [] outcome t m)
    (hlength : t.unread.length ≤ passes.length) :
    ((NoobRuntime.mk d m [t]).run (passes.map fun p ↦ .loop p.1 p.2)).machine = outcome := by
  induction passes generalizing t m with
  | nil =>
    have hread : t.ahead [] = [] :=
      LineTransport.ahead_of_unread (length_eq_zero_iff.mp (Nat.le_zero.mp hlength))
    have houtcome := h.outcome
    rw [hread] at houtcome
    exact houtcome
  | cons p passes ih =>
    obtain ⟨-, hunread, -⟩ := serve_spec (d := d) (m := m) h.attached []
    rw [length_cons] at hlength
    rw [map_cons, run, foldl_cons, happen, loop_alone h.idle]
    exact ih h.serve (by omega)

/-- **The lines of the stream are carried out one after the other**, when none of them sets the VM
going. -/
theorem run_alone (passes : List (Nat × Nat)) (ht : t.Attached) (hidle : m.vm.busy = false)
    (hcalm : ∀ frame ∈ t.ahead (arrivals events), Calm d frame)
    (hlength : t.unread.length + (arrivals events).length ≤ passes.length) :
    ((NoobRuntime.mk d m [t]).run (events ++ passes.map fun p ↦ .loop p.1 p.2)).machine =
      handleAll d (t.ahead (arrivals events)) m := by
  have hstart : Underway d (arrivals events ++ [])
      (handleAll d (t.ahead (arrivals events)) m) t m := by
    rw [append_nil]
    exact ⟨ht, hidle, hcalm, rfl⟩
  obtain ⟨t', m', hrun, hunderway, hunread⟩ := run_underway events hstart
  rw [run] at hrun
  rw [run, foldl_append, hrun]
  exact run_loops passes hunderway (by omega)

end NoobRuntime

end Noobia
