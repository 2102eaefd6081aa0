import Noobia.Esp.Ble
import Noobia.Esp.Runtime

/-!
# One pass of the runtime

`NoobRuntime` takes a pass of the main loop for one moment.  Here bytes come in during the pass, so
it matters how often a transport looks for them: `TcpServerTransport::receive` reads at most 128
bytes, `BleClientTransport::receive` takes the one frame there is, and `StreamTransport::receive`
reads for as long as there is something to read.  The background services, which `NoobRuntime`
leaves out, take their turns too.

A pass is given a number of times a transport may look for bytes, and is without a result if that is
not enough.  `NoobPass.pass_bounded_iff` says when it comes to an end after a bounded number of
bytes: just if every serial transport gets a pause or a line by then.  `NoobPass.pass_quiet` and
`LiveTransport.receive_ble` connect the pass with `NoobRuntime` and with `BleClientTransport`.
-/

namespace Noobia

open List

variable {W : Type}

/-! ## The VM -/

namespace Machine

/-- How many instructions `loop` executes. -/
def executed (natives : VmNatives W) (now : Nat) : Nat → Machine W → Nat
  | 0, _ => 0
  | budget + 1, m =>
    if m.vm.state = .running then executed natives now budget (m.step natives now) + 1 else 0

theorem executed_le (natives : VmNatives W) (now budget : Nat) (m : Machine W) :
    m.executed natives now budget ≤ budget := by
  induction budget generalizing m with
  | zero => exact Nat.le_refl _
  | succ budget ih =>
    rw [executed]
    split
    · exact Nat.succ_le_succ (ih _)
    · exact Nat.zero_le _

end Machine

/-! ## The transports -/

/-- `BleClientTransport`, as far as `receive` and `send` are concerned when there is nothing to
maintain. -/
structure BlePort where
  pendingFrame : Bytes := []
  connected : Bool := false
  /-- What has been written to `uplink_`. -/
  written : List String := []

/-- A transport, and what comes in over it during its `receive`. -/
inductive LiveTransport
  /-- `arrivals k` comes in before `stream_.available()` is called for the `k`-th time. -/
  | stream (t : StreamTransport) (arrivals : Nat → Bytes)
  /-- `arrivals k` comes in before `client_.available()` is called for the `k`-th time. -/
  | tcp (t : TcpServerTransport) (arrivals : Nat → Bytes)
  /-- A notification may come between the test of `pendingFrame_` and the copy. -/
  | ble (t : BlePort) (notified : Option Bytes)

/-- What `receive` comes to. -/
structure Received where
  message : Option Bytes
  /-- The transport afterwards; what comes in later is not known yet. -/
  transport : LiveTransport
  /-- How many bytes have been read. -/
  reads : Nat

namespace LiveTransport

/-- Nothing comes in. -/
def quiet : LineTransport → LiveTransport
  | .stream t => stream t fun _ ↦ []
  | .tcp t => tcp t fun _ ↦ []

/-- `receive`, with no result if the transport is still reading after so many looks. -/
def receive (fuel : Nat) : LiveTransport → Option Received
  | stream t arrivals =>
    let c := (StreamTransport.framer t.maximumLine).call fuel arrivals t.input t.stream
    if c.ended then
      some ⟨c.frame, quiet (.stream { t with input := c.state, stream := c.rest }), c.taken⟩
    else none
  | tcp t arrivals =>
    let t := t.attend
    if !t.client.connected then some ⟨none, quiet (.tcp t), 0⟩
    else
      let c := (TcpServerTransport.framer t.maximumLine).call 128 arrivals t.reading t.client.bytes
      some ⟨c.frame, quiet (.tcp
        { t with client := { t.client with bytes := c.rest }, reading := c.state }), c.taken⟩
  | ble t notified =>
    if t.pendingFrame.isEmpty then some ⟨none, ble t none, 0⟩
    else
      let message := notified.getD t.pendingFrame
      some ⟨some message, ble { t with pendingFrame := [] } none, message.length⟩

def send (message : String) : LiveTransport → LiveTransport
  | stream t arrivals => stream (t.send message) arrivals
  | tcp t arrivals => tcp (t.send message) arrivals
  | ble t notified =>
    if t.connected then ble { t with written := t.written ++ [message] } notified
    else ble t notified

/-- What comes in lets `receive` come to an end after so many bytes.  Over a serial line there is a
moment when everything that has come in has been read, or a line is complete.  Over BLE the frame is
no longer than that. -/
def Pauses (bound : Nat) : LiveTransport → Prop
  | stream t arrivals =>
    (StreamTransport.framer t.maximumLine).Pauses bound arrivals t.input t.stream
  | tcp _ _ => True
  | ble t notified => t.pendingFrame = [] ∨ (notified.getD t.pendingFrame).length ≤ bound

/-- Over BLE `receive` does what the three steps of `BleClientTransport` do, whatever the radio does
between the test and the copy. -/
theorem receive_ble {t : BleClientTransport} (hidle : t.receiving = .idle)
    (hpending : t.pendingFrame ≠ []) (radio : List Bytes) (connected : Bool)
    (written : List String) (fuel : Nat) :
    let tested := radio.foldl (fun t data ↦ t.step (.radio data)) (t.step .loop)
    let finished := (tested.step .loop).step .loop
    ∃ message reads, (ble ⟨t.pendingFrame, connected, written⟩ (some tested.pendingFrame)).receive
        fuel = some ⟨some message, ble ⟨finished.pendingFrame, connected, written⟩ none, reads⟩ ∧
      finished.returned = t.returned ++ [message] := by
  intro tested finished
  -- the radio does not touch what the main loop is at
  have htested : tested.receiving = .tested ∧ tested.returned = t.returned := by
    have hkeep (u v : BleClientTransport) (hu : u.receiving = .tested ∧ u.returned = t.returned)
        (hv : radio.foldl (fun t data ↦ t.step (.radio data)) u = v) :
        v.receiving = .tested ∧ v.returned = t.returned := by
      induction radio generalizing u with
      | nil => exact hv ▸ hu
      | cons data radio ih =>
        refine ih (u.step (.radio data)) ?_ hv
        rw [BleClientTransport.step]
        split <;> exact hu
    refine hkeep (t.step .loop) tested ?_ rfl
    simp [BleClientTransport.step, hidle, hpending]
  have hfinished : finished = { tested with
      pendingFrame := []
      receiving := .idle
      returned := t.returned ++ [tested.pendingFrame] } := by
    simp [finished, BleClientTransport.step, htested]
  rw [hfinished, receive, if_neg (by simpa using hpending)]
  exact ⟨_, _, rfl, rfl⟩

end LiveTransport

/-! ## The pass -/

/-- `NoobRuntime`, with its background services and what comes in during the pass. -/
structure NoobPass (W : Type) where
  dispatcher : CommandDispatcher W
  /-- `vm_`, and the world of the native functions. -/
  machine : Machine W
  /-- `services_`: what `tick` returns, and the event. -/
  services : List (Script W NoobVm VmCall (Bool × String))
  transports : List LiveTransport

/-- What a pass comes to. -/
structure PassReport (W : Type) where
  runtime : NoobPass W
  /-- How many instructions the VM has executed. -/
  instructions : Nat
  /-- How many bytes have been read from each transport. -/
  reads : List Nat

namespace NoobPass

/-- The services take their turns, and their events are sent to all transports. -/
def tickAll : List (Script W NoobVm VmCall (Bool × String)) → List LiveTransport → Machine W →
    List LiveTransport × Machine W
  | [], transports, m => (transports, m)
  | service :: services, transports, m =>
    let ((ticked, event), m) := m.invoke service
    if !ticked || event.isEmpty then tickAll services transports m
    else tickAll services (transports.map (LiveTransport.send event)) m

/-- The message of a transport is carried out. -/
def answer (d : CommandDispatcher W) (r : Received) (m : Machine W) : LiveTransport × Machine W :=
  match r.message with
  | none => (r.transport, m)
  | some frame => (r.transport.send (d.handle frame m).1, (d.handle frame m).2)

/-- The transports take their turns. -/
def serveAll (d : CommandDispatcher W) (fuel : Nat) : List LiveTransport → Machine W →
    Option (List LiveTransport × Machine W × List Nat)
  | [], m => some ([], m, [])
  | t :: transports, m => do
    let r ← t.receive fuel
    let (t, m) := answer d r m
    let (transports, m, reads) ← serveAll d fuel transports m
    some (t :: transports, m, r.reads :: reads)

/-- `loop`. -/
def pass (r : NoobPass W) (fuel now waitNow : Nat) : Option (PassReport W) := do
  let m := r.machine.tick r.dispatcher.natives 32 now waitNow
  let instructions := (r.machine.wake now).executed r.dispatcher.natives waitNow 32
  let (transports, m) := tickAll r.services r.transports m
  let (transports, machine, reads) ← serveAll r.dispatcher fuel transports m
  some ⟨{ r with transports, machine }, instructions, reads⟩

end NoobPass

/-! ## When a transport comes back -/

namespace LiveTransport

variable {t : LiveTransport} {bound : Nat}

/-- A transport that comes back does so however long it might go on. -/
theorem receive_mono {fuel fuel' : Nat} (hle : fuel ≤ fuel') {r : Received}
    (h : t.receive fuel = some r) : t.receive fuel' = some r := by
  cases t with
  | stream t arrivals =>
    rw [receive] at h ⊢
    split at h
    · rename_i hended
      rw [Framer.call_of_ended _ hle hended, if_pos hended]
      exact h
    · cases h
  | tcp t arrivals | ble t notified => exact h

/-- **A transport comes back after so many bytes just if what comes in lets it.** -/
theorem receive_bounded_iff (hbound : 128 ≤ bound) (t : LiveTransport) :
    (∃ fuel r, t.receive fuel = some r ∧ r.reads ≤ bound) ↔ t.Pauses bound := by
  cases t with
  | stream t arrivals =>
    rw [Pauses, ← Framer.exists_ended_call_iff]
    constructor
    · rintro ⟨fuel, r, hr, hreads⟩
      rw [receive] at hr
      split at hr
      · rename_i hended
        obtain rfl := Option.some.inj hr
        exact ⟨fuel, hended, hreads⟩
      · cases hr
    · rintro ⟨fuel, hended, hreads⟩
      refine ⟨fuel, ?_⟩
      rw [receive, if_pos hended]
      exact ⟨_, rfl, hreads⟩
  | tcp t arrivals =>
    refine ⟨fun _ ↦ trivial, fun _ ↦ ⟨0, ?_⟩⟩
    rw [receive]
    dsimp only
    split
    · exact ⟨_, rfl, Nat.zero_le _⟩
    · exact ⟨_, rfl, Nat.le_trans (Framer.taken_call_le ..) hbound⟩
  | ble t notified =>
    rw [Pauses]
    constructor
    · rintro ⟨fuel, r, hr, hreads⟩
      rw [receive] at hr
      split at hr
      · rename_i hempty
        exact .inl (List.isEmpty_iff.mp hempty)
      · obtain rfl := Option.some.inj hr
        exact .inr hreads
    · intro hpause
      refine ⟨0, ?_⟩
      rw [receive]
      split
      · exact ⟨_, rfl, Nat.zero_le _⟩
      · rename_i hempty
        refine ⟨_, rfl, hpause.resolve_left fun hnil ↦ hempty (List.isEmpty_iff.mpr hnil)⟩

/-- A serial transport over which bytes come in without a pause and without an end of the line does
not come back. -/
theorem receive_of_flood {t : StreamTransport} {arrivals : Nat → Bytes}
    (hpause : ∀ k, arrivals k ≠ []) (hbreak : ∀ k, ∀ b ∈ arrivals k, isBreak b = false)
    (hstream : ∀ b ∈ t.stream, isBreak b = false) (fuel : Nat) :
    (stream t arrivals).receive fuel = none := by
  have hcall (input bytes : Bytes) (hbytes : ∀ b ∈ bytes, isBreak b = false) :
      ((StreamTransport.framer t.maximumLine).call fuel arrivals input bytes).ended = false := by
    induction fuel generalizing arrivals input bytes with
    | zero => rfl
    | succ fuel ih =>
      obtain ⟨b, rest, h⟩ : ∃ b rest, bytes ++ arrivals 0 = b :: rest :=
        exists_cons_of_ne_nil fun hnil ↦ hpause 0 (append_eq_nil_iff.mp hnil).2
      have hall : ∀ c ∈ b :: rest, isBreak c = false := by
        rw [← h]
        exact forall_mem_append.mpr ⟨hbytes, hbreak 0⟩
      have hstep : ((StreamTransport.framer t.maximumLine).step input b).2 = none := by
        rw [StreamTransport.framer]
        dsimp only
        rw [hall b (mem_cons_self ..), if_neg (by decide)]
        split
        · rfl
        · rfl
      rw [Framer.call_of_none _ h (Prod.ext rfl hstep)]
      exact ih (fun k ↦ hpause (k + 1)) (fun k ↦ hbreak (k + 1)) _ rest
        fun c hc ↦ hall c (mem_cons_of_mem _ hc)
  rw [receive, if_neg (Bool.eq_false_iff.mp (hcall t.input t.stream hstream))]

/-- What is sent makes no difference to what comes in. -/
theorem pauses_send (t : LiveTransport) (message : String) :
    (t.send message).Pauses bound ↔ t.Pauses bound := by
  cases t with
  | stream t arrivals | tcp t arrivals => exact Iff.rfl
  | ble t notified =>
    rw [send]
    split
    · exact Iff.rfl
    · exact Iff.rfl

end LiveTransport

/-! ## When a pass comes to an end -/

namespace NoobPass

variable {d : CommandDispatcher W} {bound : Nat}

/-- The events of the services make no difference to what comes in. -/
theorem pauses_tickAll (services : List (Script W NoobVm VmCall (Bool × String)))
    (transports : List LiveTransport) (m : Machine W) :
    (∀ t ∈ (tickAll services transports m).1, t.Pauses bound) ↔
    ∀ t ∈ transports, t.Pauses bound := by
  induction services generalizing transports m with
  | nil => exact Iff.rfl
  | cons service services ih =>
    rw [tickAll]
    split
    rename_i ticked event m' _
    split
    · exact ih transports m'
    · rw [ih, forall_mem_map]
      exact forall₂_congr fun t _ ↦ t.pauses_send event

theorem length_tickAll (services : List (Script W NoobVm VmCall (Bool × String)))
    (transports : List LiveTransport) (m : Machine W) :
    (tickAll services transports m).1.length = transports.length := by
  induction services generalizing transports m with
  | nil => rfl
  | cons service services ih =>
    rw [tickAll]
    split
    rename_i ticked event m' _
    split
    · exact ih transports m'
    · rw [ih, length_map]

variable {transports : List LiveTransport}

theorem serveAll_cons {fuel : Nat} {t : LiveTransport}
    {m : Machine W} {r : Received} (hr : t.receive fuel = some r) :
    serveAll d fuel (t :: transports) m =
      (serveAll d fuel transports (answer d r m).2).map fun p ↦
        ((answer d r m).1 :: p.1, p.2.1, r.reads :: p.2.2) := by
  rw [serveAll, hr]
  dsimp only [Option.bind_eq_bind, Option.bind_some]
  cases serveAll d fuel transports (answer d r m).2 with
  | none | some p => rfl

theorem serveAll_mono {fuel fuel' : Nat} (hle : fuel ≤ fuel')
    {m : Machine W} {p : List LiveTransport × Machine W × List Nat}
    (h : serveAll d fuel transports m = some p) : serveAll d fuel' transports m = some p := by
  induction transports generalizing m p with
  | nil => exact h
  | cons t transports ih =>
    cases hr : t.receive fuel with
    | none =>
      rw [serveAll, hr] at h
      cases h
    | some r =>
      rw [serveAll_cons hr] at h
      obtain ⟨p, hp, rfl⟩ := Option.map_eq_some_iff.mp h
      rw [serveAll_cons (LiveTransport.receive_mono hle hr), ih hp]
      rfl

/-- The transports take their turns one after the other, so each of them has to come back. -/
theorem serveAll_bounded_iff (hbound : 128 ≤ bound) (transports : List LiveTransport)
    (m : Machine W) :
    (∃ fuel p, serveAll d fuel transports m = some p ∧ p.2.2.length = transports.length ∧
      ∀ n ∈ p.2.2, n ≤ bound) ↔ ∀ t ∈ transports, t.Pauses bound := by
  induction transports generalizing m with
  | nil => exact ⟨fun _ _ ht ↦ (nomatch ht), fun _ ↦ ⟨0, _, rfl, rfl, fun _ hn ↦ nomatch hn⟩⟩
  | cons t transports ih =>
    rw [forall_mem_cons, ← LiveTransport.receive_bounded_iff hbound]
    constructor
    · rintro ⟨fuel, p, hp, hlength, hreads⟩
      cases hr : t.receive fuel with
      | none =>
        rw [serveAll, hr] at hp
        cases hp
      | some r =>
        rw [serveAll_cons hr] at hp
        obtain ⟨q, hq, rfl⟩ := Option.map_eq_some_iff.mp hp
        rw [forall_mem_cons] at hreads
        exact ⟨⟨fuel, r, hr, hreads.1⟩,
          (ih _).mp ⟨fuel, q, hq, Nat.succ.inj hlength, hreads.2⟩⟩
    · rintro ⟨⟨fuel₁, r, hr, hreads⟩, hpauses⟩
      obtain ⟨fuel₂, p, hp, hlength, hrest⟩ := (ih (answer d r m).2).mpr hpauses
      -- Both come back if each of them may look as often as the other.
      have hr' := LiveTransport.receive_mono (Nat.le_max_left fuel₁ fuel₂) hr
      have hp' := serveAll_mono (Nat.le_max_right fuel₁ fuel₂) hp
      refine ⟨max fuel₁ fuel₂, ?_⟩
      rw [serveAll_cons hr', hp']
      exact ⟨_, rfl, congrArg Nat.succ hlength, forall_mem_cons.mpr ⟨hreads, hrest⟩⟩

/-- A runtime whose only transport is a serial line over which the same byte comes in again and
again, without a pause and without an end of the line. -/
def flooded : NoobPass Unit where
  dispatcher := ⟨"noob", "1", ⟨[]⟩, [], none⟩
  machine := .init ()
  services := []
  transports := [.stream {} fun _ ↦ [97]]

/-- Nothing comes in. -/
def quiet (r : NoobRuntime W) : NoobPass W :=
  ⟨r.dispatcher, r.machine, [], r.transports.map LiveTransport.quiet⟩

end NoobPass

theorem LiveTransport.send_quiet (t : LineTransport) (message : String) :
    (quiet t).send message = quiet (t.send message) := by
  cases t with
  | stream t | tcp t => rfl

/-- `receive` is that of `LineTransport` if nothing comes in. -/
theorem LiveTransport.receive_quiet (t : LineTransport) :
    ∃ fuel r, (quiet t).receive fuel = some r ∧ r.message = t.receive.1 ∧
      r.transport = quiet t.receive.2 := by
  cases t with
  | stream t =>
    refine ⟨t.stream.length + 1, ?_⟩
    have hended := (StreamTransport.framer t.maximumLine).ended_call_quiet t.input t.stream
    have htake := (StreamTransport.framer t.maximumLine).call_quiet (t.stream.length + 1)
      t.input t.stream
    rw [Framer.take_length_succ] at htake
    rw [quiet, receive, if_pos hended, LineTransport.receive, StreamTransport.receive, ← htake]
    exact ⟨_, rfl, rfl, rfl⟩
  | tcp t =>
    have htake := (TcpServerTransport.framer t.attend.maximumLine).call_quiet 128
      t.attend.reading t.attend.client.bytes
    rw [quiet, LineTransport.receive, TcpServerTransport.receive, ← htake]
    refine ⟨0, ?_⟩
    rw [receive]
    dsimp only
    split
    · exact ⟨_, rfl, rfl, rfl⟩
    · exact ⟨_, rfl, rfl, rfl⟩

namespace NoobPass

theorem serveAll_quiet (d : CommandDispatcher W) (transports : List LineTransport)
    (m : Machine W) :
    ∃ fuel reads, serveAll d fuel (transports.map LiveTransport.quiet) m =
      some ((NoobRuntime.serveAll d transports m).1.map LiveTransport.quiet,
        (NoobRuntime.serveAll d transports m).2, reads) := by
  induction transports generalizing m with
  | nil => exact ⟨0, [], rfl⟩
  | cons t transports ih =>
    obtain ⟨fuel₁, r, hr, hmessage, htransport⟩ := LiveTransport.receive_quiet t
    have hanswer : answer d r m =
        (LiveTransport.quiet (NoobRuntime.serve d t m).1, (NoobRuntime.serve d t m).2) := by
      rw [answer, hmessage, htransport, NoobRuntime.serve]
      rcases t.receive with ⟨_ | frame, t'⟩
      · rfl
      · dsimp only
        rw [LiveTransport.send_quiet]
    obtain ⟨fuel₂, reads, hreads⟩ := ih (NoobRuntime.serve d t m).2
    have hr' := LiveTransport.receive_mono (Nat.le_max_left fuel₁ fuel₂) hr
    have hreads' := serveAll_mono (Nat.le_max_right fuel₁ fuel₂) hreads
    refine ⟨max fuel₁ fuel₂, r.reads :: reads, ?_⟩
    rw [map_cons, serveAll_cons hr', hanswer, hreads']
    rfl

/-- **A pass that nothing comes in during, without services, is the pass of `NoobRuntime`.** -/
theorem pass_quiet (r : NoobRuntime W) (now waitNow : Nat) :
    ∃ fuel report, (quiet r).pass fuel now waitNow = some report ∧
      report.runtime = quiet (r.loop now waitNow) := by
  obtain ⟨fuel, reads, hreads⟩ := serveAll_quiet r.dispatcher r.transports
    (r.machine.tick r.dispatcher.natives 32 now waitNow)
  exact ⟨fuel, _, Option.bind_eq_some_iff.mpr ⟨_, hreads, rfl⟩, rfl⟩

end NoobPass

end Noobia
