import Noobia.Council.Effect
import Noobia.Lib.Clocked

/-!
# The hub and the time

The lease on a conversation is a matter of time, and so are the properties that are about it.  Here
the handlers run with a clock: `Hub.timed` is the hub after an interleaving together with the time
of the last section.

`Grown` says in whose name notes have been added between two states, and `LeaseStep` what a section
can do to the lease.  The second is the list of sections again, from the point of view of
`activity_until`.
-/

namespace Noobia.Council

open List

open Routine

variable {cfg : Config}

/-! ## The clock -/

/-- The thread started for a connection, with a clock. -/
def timedThread (socket : Nat) (call : Call cfg) : Routine Env (Clocked (Hub cfg)) Unit :=
  (connectionThread socket call).clocked Env.now

/-- The hub and the time after an interleaving of connection handlers. -/
def Hub.timed (s : Hub cfg) (acts : List (Act (Call cfg) Env)) : Clocked (Hub cfg) :=
  (System.run timedThread ⟨⟨0, s⟩, []⟩ acts).shared

theorem Hub.timed_state (s : Hub cfg) (acts : List (Act (Call cfg) Env)) :
    (s.timed acts).state = s.after acts := by
  obtain ⟨clock, hclock⟩ := System.run_clocked Env.now connectionThread 0 ⟨s, []⟩ acts
  exact congrArg (·.shared.state) hclock

/-! ## Notes -/

/-- Between two states notes have been added, all of them in the name of connections with `p`, and
none have been taken back. -/
structure Grown (p : Connection cfg → Prop) (s t : Hub cfg) : Prop where
  history : ∃ new, t.history = s.history ++ new ∧ ∀ e ∈ new, p e.connection
  leases : ∃ new, t.leases = s.leases ++ new ∧ ∀ x ∈ new, p x.connection

namespace Grown

variable {p q : Connection cfg → Prop} {s t u : Hub cfg}

theorem refl (s : Hub cfg) : Grown p s s := ⟨⟨[], by simp⟩, ⟨[], by simp⟩⟩

theorem trans (hst : Grown p s t) (htu : Grown p t u) : Grown p s u := by
  obtain ⟨⟨events, hevents, hp⟩, ⟨leases, hleases, hq⟩⟩ := hst
  obtain ⟨⟨events', hevents', hp'⟩, ⟨leases', hleases', hq'⟩⟩ := htu
  refine ⟨⟨events ++ events', by simp [hevents, hevents'], fun e he ↦ ?_⟩,
    ⟨leases ++ leases', by simp [hleases, hleases'], fun x hx ↦ ?_⟩⟩
  · exact (mem_append.mp he).elim (hp e) (hp' e)
  · exact (mem_append.mp hx).elim (hq x) (hq' x)

theorem mono (h : Grown p s t) (hpq : ∀ c, p c → q c) : Grown q s t := by
  obtain ⟨⟨events, hevents, hp⟩, ⟨leases, hleases, hq⟩⟩ := h
  exact ⟨⟨events, hevents, fun e he ↦ hpq _ (hp e he)⟩,
    ⟨leases, hleases, fun x hx ↦ hpq _ (hq x hx)⟩⟩

theorem mem_history (h : Grown p s t) {e : Event cfg} (he : e ∈ s.history) : e ∈ t.history := by
  obtain ⟨new, hnew, -⟩ := h.history
  rw [hnew]
  exact mem_append_left _ he

theorem mem_leases (h : Grown p s t) {x : Lease cfg} (hx : x ∈ s.leases) : x ∈ t.leases := by
  obtain ⟨new, hnew, -⟩ := h.leases
  rw [hnew]
  exact mem_append_left _ hx

/-- A note in the name of somebody else was there before. -/
theorem history_of_not (h : Grown p s t) {e : Event cfg} (he : e ∈ t.history)
    (hp : ¬ p e.connection) : e ∈ s.history := by
  obtain ⟨new, hnew, hown⟩ := h.history
  rw [hnew] at he
  exact (mem_append.mp he).resolve_right fun h ↦ hp (hown e h)

theorem leases_of_not (h : Grown p s t) {x : Lease cfg} (hx : x ∈ t.leases)
    (hp : ¬ p x.connection) : x ∈ s.leases := by
  obtain ⟨new, hnew, hown⟩ := h.leases
  rw [hnew] at hx
  exact (mem_append.mp hx).resolve_right fun h ↦ hp (hown x h)

end Grown

variable {c : Connection cfg} {K : Kind → Prop} {i : Env} {s t : Hub cfg}

/-- A section adds notes in the name of its own connection. -/
theorem Section.grown (h : Section c K i s t) : Grown (· = c) s t := by
  obtain ⟨new, hnew, hown, -⟩ := h.effect (K := fun _ ↦ True) fun _ _ _ ↦ trivial
  refine ⟨⟨new, hnew, fun e he ↦ (hown e he).1⟩, ?_⟩
  have hlease (x : Lease cfg) (hx : x.connection = c) :
      ∃ new, s.leases ++ [x] = s.leases ++ new ∧ ∀ x ∈ new, Lease.connection x = c :=
    ⟨[x], by simp [hx]⟩
  cases h with
  | measure | mark | release => exact hlease _ rfl
  | reserve now =>
    rw [Hub.reserve]
    split
    · exact hlease _ rfl
    · exact hlease _ rfl
  | _ => exact ⟨[], by simp [Hub.note, Hub.append, Hub.turnTo, Hub.settle, Hub.propose, Hub.vote]⟩

/-! ## The lease -/

/-- What a section can do to the lease. -/
inductive LeaseStep (c : Connection cfg) (K : Kind → Prop) (i : Env) (s t : Hub cfg) : Prop
  | quiet (hleases : t.leases = s.leases) (huntil : t.activityUntil = s.activityUntil)
  | measure (now remaining : Nat) (h : K .measure) (hhistory : t.history = s.history)
    (hleases : t.leases = s.leases ++ [.measured c now (s.lease remaining now)])
    (huntil : t.activityUntil = s.activityUntil)
  | reserve (now : Nat) (h : K .reserve) (hreserve : t = (s.reserve c now i).2)
  | mark (h : K .mark) (hhistory : t.history = s.history)
    (hleases : t.leases = s.leases ++ [.marked c i.now])
    (huntil : t.activityUntil = i.now + leaseSeconds)
  | release (h : K .release) (hhistory : t.history = s.history)
    (hleases : t.leases = s.leases ++ [.released c]) (huntil : t.activityUntil = 0)

theorem Section.leaseStep (h : Section c K i s t) : LeaseStep c K i s t := by
  cases h with
  | measure now remaining h => exact .measure now remaining h rfl rfl rfl
  | reserve now h => exact .reserve now h rfl
  | mark h => exact .mark h rfl rfl rfl
  | release h => exact .release h rfl rfl rfl
  | _ => exact .quiet rfl rfl

/-- The lease is over only when `activity_until` has come. -/
theorem Hub.activityUntil_le {remaining now : Nat} (h : s.lease remaining now = 0) :
    s.activityUntil ≤ now := by
  rw [Hub.lease] at h
  split at h
  · rename_i hlonger
    simp only [Bool.and_eq_true, decide_eq_true_eq] at hlonger
    omega
  · rename_i hshorter
    simp only [Bool.and_eq_true, decide_eq_true_eq, not_and] at hshorter
    omega

theorem Hub.reserve_spec (s : Hub cfg) (c : Connection cfg) (now : Nat) (i : Env) :
    (s.reserve c now i).2.history = s.history ∧
    (s.reserve c now i).2.leases = s.leases ++ [.measured c now (s.reserve c now i).1] ∧
    ((s.reserve c now i).1 = 0 → s.activityUntil ≤ now ∧
      (s.reserve c now i).2.activityUntil = now + leaseSeconds) ∧
    ((s.reserve c now i).1 ≠ 0 → (s.reserve c now i).2.activityUntil = s.activityUntil) := by
  rw [Hub.reserve]
  split
  · rename_i hzero
    exact ⟨rfl, rfl, fun _ ↦ ⟨Hub.activityUntil_le hzero, rfl⟩, fun h ↦ absurd hzero h⟩
  · rename_i hzero
    exact ⟨rfl, rfl, fun h ↦ absurd h hzero, fun _ ↦ rfl⟩

/-- Whoever is told how long the conversation takes is not told that it is accepted. -/
theorem busyReply_ne (remaining : Nat) : busyReply remaining ≠ accepted := by
  rw [busyReply]
  split
  · decide
  · exact fun h ↦ absurd (congrArg (·.head?) h) (by simp [accepted, Bytes.ofAscii])

/-! ## Messages -/

section

variable (D : Discipline (Clocked (Hub cfg))) (c : Connection cfg)

/-- The routine can be run by the handler of `c` wherever `P` holds, and leads to `Q`. -/
def Handles {α : Type} (m : Handler cfg α) (P : Clocked (Hub cfg) → Prop)
    (Q : α → Clocked (Hub cfg) → Prop) : Prop :=
  ∀ s, P s → (m.clocked Env.now).Ok D c.socket Q s

variable (Before : Clocked (Hub cfg) → Prop) (Held : Bool → Clocked (Hub cfg) → Prop)
  (Marked : Clocked (Hub cfg) → Prop)

/-- How a message is served, step by step.  `Before` holds until it is known whether the message
will be, `Held` while it is on its way, with a lease that was reserved for it or without, and
`Marked` once the lease has been marked. -/
structure Messaging : Prop where
  markSeen : Handles D c (markSeen c) Before fun _ ↦ Before
  checkTurn : Handles D c (checkTurn c) Before fun _ ↦ Before
  reserve : c.isInitiate = true →
    Handles D c (reserveInitiation c) Before fun remaining s ↦ remaining = 0 → Held true s
  relay : ∀ reserved message, Handles D c (relayMessage c message) (Held reserved)
    fun _ ↦ Held reserved
  record : ∀ reserved message (event : LogEvent), event.kind = .record →
    Handles D c (transcriptAppend c .transcript c.name event message 0) (Held reserved)
      fun _ ↦ Held reserved
  mark : ∀ reserved, Handles D c (markActivity c) (Held reserved) fun _ ↦ Marked
  release : Handles D c (releaseInitiation c) (Held true) fun _ _ ↦ True
  accept : Handles D c (send c accepted) Marked fun _ _ ↦ True
  refuse : ∀ line, line ≠ accepted → Handles D c (send c line) (fun _ ↦ True) fun _ _ ↦ True
  close : Handles D c (networkClose c) (fun _ ↦ True) fun _ _ ↦ True

variable {D c Before Held Marked}

theorem Messaging.acceptMessage (h : Messaging D c Before Held Marked) (message : Bytes)
    {event : LogEvent} (hevent : event.kind = .record) (reserved : Bool) :
    Handles D c (acceptMessage c message event reserved) (Held reserved) fun _ _ ↦ True := by
  have hreject (error : String) (herror : Bytes.ofAscii error ≠ accepted) :
      Handles D c (rejectMessage c reserved error) (Held reserved) fun _ _ ↦ True := by
    intro s hs
    cases reserved with
    | false => exact h.refuse _ herror s trivial
    | true => exact ok_clocked_bind (h.release s hs) fun _ t _ ↦ h.refuse _ herror t trivial
  intro s hs
  refine ok_clocked_bind (h.relay reserved message s hs) fun outcome t ht ↦ ?_
  cases outcome with
  | routed =>
    refine ok_clocked_bind (h.record reserved message event hevent t ht) fun _ t ht ↦ ?_
    exact ok_clocked_bind (h.mark reserved t ht) fun _ t ht ↦ h.accept t ht
  | targetOffline | targetUnknown | targetSelf => exact hreject _ (by decide) t ht

/-- **`INITIATE` and `SAY`**: it is enough to look at the steps. -/
theorem Messaging.handleConnection (h : Messaging D c Before Held Marked)
    (hmessage : c.isInitiate = true ∨ c.isSay = true ∧ ∀ s, Before s → Held false s) :
    Handles D c (handleConnection c) Before fun _ _ ↦ True := by
  intro s hs
  refine ok_clocked_bind (h.markSeen s hs) fun _ t ht ↦
    ok_clocked_bind (R := fun _ _ ↦ True) ?_ fun _ t _ ↦ h.close t trivial
  rw [serveLine]
  split
  · exact ok_pure (D.stable_true _) trivial
  rename_i command hcommand
  refine ok_clocked_bind (h.checkTurn t ht) fun hasTurn t ht ↦ ?_
  simp only [Connection.isInitiate, Connection.isSay, hcommand] at hmessage
  cases command
  case say message =>
    obtain ⟨-, hheld⟩ := hmessage.resolve_left Bool.false_ne_true
    rw [handleCommand]
    split
    · exact h.refuse _ (by decide) t trivial
    · exact h.acceptMessage message rfl false t (hheld t ht)
  case initiate message =>
    have hinitiate : c.isInitiate = true := by rw [Connection.isInitiate, hcommand]
    refine ok_clocked_bind (h.reserve hinitiate t ht) fun remaining t ht ↦ ?_
    by_cases hzero : remaining = 0
    · rw [if_neg (by simpa using hzero)]
      exact h.acceptMessage message rfl true t (ht hzero)
    · rw [if_pos hzero]
      exact h.refuse _ (busyReply_ne remaining) t trivial
  all_goals simp at hmessage

end

/-! ## Runs -/

/-- Whatever thread it is of, a section is one of the list. -/
theorem connectionThread_takes (socket : Nat) (call : Call cfg) :
    (connectionThread socket call).Takes fun i s t ↦ ∃ c, Section c (fun _ ↦ True) i s t := by
  exact (handleConnection_section _).mono fun _ _ _ h ↦ ⟨_, h⟩

theorem run_takes (s : Hub cfg) (acts : List (Act (Call cfg) Env)) :
    (System.run connectionThread ⟨s, []⟩ acts).Takes
      fun i s t ↦ ∃ c, Section c (fun _ ↦ True) i s t := by
  have hstart : (⟨s, []⟩ : System Env (Hub cfg)).Takes
      fun i s t ↦ ∃ c, Section c (fun _ ↦ True) i s t := nofun
  exact (hstart.run connectionThread_takes (R := fun _ _ ↦ True) (fun _ ↦ trivial)
    (fun _ _ ↦ trivial) (fun _ _ _ _ ↦ trivial) acts).1

theorem Hub.after_grown (s : Hub cfg) (acts acts' : List (Act (Call cfg) Env)) :
    Grown (fun _ ↦ True) (s.after acts) (s.after (acts ++ acts')) := by
  rw [Hub.after, Hub.after, System.run_append]
  exact ((run_takes s acts).run connectionThread_takes .refl .trans
    (fun i s t ⟨_, h⟩ ↦ h.grown.mono fun _ _ ↦ trivial) acts').2

/-- What is added to the history is not added to the notes about the lease as well. -/
theorem Section.leases_of_history (h : Section c K i s t) (hne : t.history ≠ s.history) :
    t.leases = s.leases := by
  cases h.leaseStep with
  | quiet hleases => exact hleases
  | measure _ _ _ hhistory | mark _ hhistory | release _ hhistory => exact absurd hhistory hne
  | reserve now _ hreserve => exact absurd (hreserve ▸ (s.reserve_spec c now i).1) hne

theorem Hub.after_leases_of_history (s : Hub cfg) (acts : List (Act (Call cfg) Env))
    (a : Act (Call cfg) Env) (hne : (s.after (acts ++ [a])).history ≠ (s.after acts).history) :
    (s.after (acts ++ [a])).leases = (s.after acts).leases := by
  have hact := ((run_takes s acts).act connectionThread_takes a).2
  rw [Hub.after, Hub.after, System.run_append] at hne ⊢
  rcases hact with hact | ⟨i, c, hact⟩
  · exact congrArg Hub.leases hact
  · exact hact.leases_of_history hne

end Noobia.Council
