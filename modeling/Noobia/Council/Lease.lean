import Noobia.Council.Timed

/-!
# The lease of an accepted message

A message that is accepted puts a lease of 300 seconds on the conversation.  While it lasts `BUSY`
says how much is left and nobody can initiate another conversation; only the end of the conversation
ends it early.  An initiation takes the lease before it knows whether its message can be delivered,
and gives it up if it cannot.  But what it gives up is whatever lease there is at that moment: if in
the meantime somebody else's message has been accepted, the lease of that message is gone too.
`lease_lost` is such a run.

There are two more ways to lose a lease.  The end of a conversation is recorded first and the lease
given up two sections later, so a message accepted in between loses a lease that nobody ended.  And
the 300 seconds count from the time activity is marked, not from the answer.  `lease_kept` says that
there is no other: where these do not happen, from the answer on every reading of the lease within
300 seconds finds something left, unless the end of the conversation has been recorded since, and
all that anybody is told who asks how long it takes or initiates another is that it is busy.
-/

namespace Noobia.Council

open List

open Routine

variable {cfg : Config}

/-! ## The condition -/

/-- The caller has a message for the council. -/
def Connection.isMessage (c : Connection cfg) : Bool := c.isSay || c.isInitiate

/-- The record of the end of a conversation. -/
def Event.isEnd : Event cfg → Bool
  | recorded _ .transcript record _ => record.event = .conversationEnd
  | _ => false

/-- The end of the conversation has been recorded since the message of `c` was accepted. -/
def Ended (history : List (Event cfg)) (c : Connection cfg) : Prop :=
  ∃ e ∈ history.dropWhile (· ≠ .sent c accepted), e.isEnd
  deriving Decidable

/-- The initiation of `c` has taken the lease. -/
def Lease.reserves (c : Connection cfg) (x : Lease cfg) : Bool :=
  match x with
  | measured c' _ remaining => c' = c && remaining = 0
  | _ => false

/-- What has happened to the lease since the initiation of `c` took it. -/
def since (c : Connection cfg) (leases : List (Lease cfg)) : List (Lease cfg) :=
  leases.dropWhile fun x ↦ !x.reserves c

/-- When the lease of a message was marked. -/
def Lease.message : Lease cfg → Option (Connection cfg × Nat)
  | marked c now => if c.isMessage then some (c, now) else none
  | _ => none

/-- A lease may be given up by an initiation if no message has marked a lease since it took it, and
by the end of the conversation if every message whose lease is still running had been answered when
the end was recorded. -/
def MayGiveUp (s : Hub cfg) (now : Nat) : Lease cfg → Prop
  | .released c =>
    if c.isInitiate then ∀ x ∈ since c s.leases, x.message = none
    else ∀ x ∈ s.leases, ∀ m ∈ x.message, now < m.2 + leaseSeconds → Ended s.history m.1
  | _ => True

/-- A message is answered while it is still the time at which its lease was marked. -/
def Prompt (s : Hub cfg) (now : Nat) : Event cfg → Prop
  | .sent c line => line = accepted → ∀ x ∈ s.leases, ∀ m ∈ x.message, m.1 = c → m.2 = now
  | _ => True

/-- A section during which the clock is not turned back, no lease is lost, and no answer is late. -/
def KeepsLease (_ : Nat) (s t : Clocked (Hub cfg)) : Prop :=
  s.clock ≤ t.clock ∧
    (∀ x ∈ t.state.leases.drop s.state.leases.length, MayGiveUp s.state t.clock x) ∧
    ∀ e ∈ t.state.history.drop s.state.history.length, Prompt s.state t.clock e

instance (s : Hub cfg) (now : Nat) (x : Lease cfg) : Decidable (MayGiveUp s now x) :=
  match x with
  | .released _ => inferInstanceAs (Decidable (if _ = true then _ else _))
  | .measured .. | .marked .. => .isTrue trivial

instance (s : Hub cfg) (now : Nat) (e : Event cfg) : Decidable (Prompt s now e) := by
  cases e with
  | sent c line => exact inferInstanceAs (Decidable (_ → _))
  | _ => exact .isTrue trivial

instance (k : Nat) (s t : Clocked (Hub cfg)) : Decidable (KeepsLease k s t) :=
  inferInstanceAs (Decidable (_ ∧ _))

/-! ## The invariant -/

/-- The lease that the message of `c` marked at the time `m` has run out or been ended. -/
def Over (s : Clocked (Hub cfg)) (c : Connection cfg) (m : Nat) : Prop :=
  m + leaseSeconds ≤ s.clock ∨ Ended s.state.history c

/-- A reading after a message marked its lease finds something left, or the lease is over. -/
def Respected (s : Clocked (Hub cfg)) (x y : Lease cfg) : Prop :=
  ∀ m ∈ x.message, ∀ c now, y = .measured c now 0 → Over s m.1 m.2

/-- What holds throughout. -/
structure LeaseInv (s : Clocked (Hub cfg)) : Prop where
  bound : s.state.activityUntil ≤ s.clock + leaseSeconds
  kept : ∀ x ∈ s.state.leases, ∀ m ∈ x.message,
    m.2 + leaseSeconds ≤ s.state.activityUntil ∨ Over s m.1 m.2
  respected : s.state.leases.Pairwise (Respected s)
  answered : ∀ c : Connection cfg, c.isMessage → .sent c accepted ∈ s.state.history →
    ∃ now, .marked c now ∈ s.state.leases
  once : ∀ c : Connection cfg, c.isMessage → s.state.history.count (.sent c accepted) ≤ 1

theorem Ended.append {history : List (Event cfg)} {c : Connection cfg} (h : Ended history c)
    (new : List (Event cfg)) : Ended (history ++ new) c := by
  obtain ⟨e, he, hend⟩ := h
  refine ⟨e, ?_, hend⟩
  rw [dropWhile_append]
  split
  · rename_i hnil
    rw [List.isEmpty_iff.mp hnil] at he
    cases he
  · exact mem_append_left _ he

section

variable {s t : Clocked (Hub cfg)}

variable {p : Connection cfg → Prop} {c : Connection cfg}

theorem Over.mono {m : Nat} (h : Over s c m) (hclock : s.clock ≤ t.clock)
    (hgrown : Grown p s.state t.state) : Over t c m := by
  rcases h with h | h
  · exact .inl (Nat.le_trans h hclock)
  obtain ⟨new, hnew, -⟩ := hgrown.history
  rw [Over, hnew]
  exact .inr (h.append new)

theorem Respected.mono (hclock : s.clock ≤ t.clock) (hgrown : Grown p s.state t.state)
    {x y : Lease cfg} (h : Respected s x y) : Respected t x y :=
  fun m hm c now hy ↦ (h m hm c now hy).mono hclock hgrown

/-- A section that leaves the lease alone and answers no message. -/
theorem LeaseInv.quiet {p : Connection cfg → Prop} (hs : LeaseInv s) (hclock : s.clock ≤ t.clock)
    (hgrown : Grown p s.state t.state) (hleases : t.state.leases = s.state.leases)
    (huntil : t.state.activityUntil = s.state.activityUntil)
    (hanswer : ∀ c : Connection cfg, c.isMessage →
      t.state.history.count (.sent c accepted) = s.state.history.count (.sent c accepted)) :
    LeaseInv t := by
  refine ⟨?_, fun x hx m hm ↦ ?_, ?_, fun c hc hsent ↦ ?_, fun c hc ↦ ?_⟩
  · rw [huntil]
    exact Nat.le_trans hs.bound (Nat.add_le_add_right hclock _)
  · rw [hleases] at hx
    rw [huntil]
    exact (hs.kept x hx m hm).imp_right fun h ↦ h.mono hclock hgrown
  · rw [hleases]
    exact hs.respected.imp (Respected.mono hclock hgrown)
  · rw [hleases]
    refine hs.answered c hc (count_pos_iff.mp ?_)
    rw [← hanswer c hc]
    exact count_pos_iff.mpr hsent
  · rw [hanswer c hc]
    exact hs.once c hc

theorem LeaseInv.note {p : Connection cfg → Prop} (hs : LeaseInv s) (hclock : s.clock ≤ t.clock)
    (hgrown : Grown p s.state t.state) (hhistory : t.state.history = s.state.history)
    (y : Lease cfg) (hleases : t.state.leases = s.state.leases ++ [y])
    (hbound : t.state.activityUntil ≤ t.clock + leaseSeconds)
    (hkept : ∀ x ∈ s.state.leases, ∀ m ∈ x.message,
      m.2 + leaseSeconds ≤ t.state.activityUntil ∨ Over t m.1 m.2)
    (hmark : ∀ m ∈ y.message, m.2 + leaseSeconds ≤ t.state.activityUntil)
    (hread : ∀ x ∈ s.state.leases, Respected t x y) : LeaseInv t := by
  refine ⟨hbound, fun x hx m hm ↦ ?_, ?_, fun c hc hsent ↦ ?_, fun c hc ↦ ?_⟩
  · rw [hleases] at hx
    rcases mem_append.mp hx with hx | hx
    · exact hkept x hx m hm
    · rw [mem_singleton.mp hx] at hm
      exact .inl (hmark m hm)
  · rw [hleases, pairwise_append]
    refine ⟨hs.respected.imp (Respected.mono hclock hgrown), pairwise_singleton _ _,
      fun x hx z hz ↦ ?_⟩
    rw [mem_singleton.mp hz]
    exact hread x hx
  · rw [hhistory] at hsent
    obtain ⟨now, hnow⟩ := hs.answered c hc hsent
    exact ⟨now, hgrown.mem_leases hnow⟩
  · rw [hhistory]
    exact hs.once c hc

/-- A message has been answered whose lease is marked. -/
theorem LeaseInv.answer (hs : LeaseInv s) (hclock : s.clock ≤ t.clock)
    (hgrown : Grown p s.state t.state) (hleases : t.state.leases = s.state.leases)
    (huntil : t.state.activityUntil = s.state.activityUntil)
    (hhistory : t.state.history = s.state.history ++ [.sent c accepted])
    (hnew : .sent c accepted ∉ s.state.history) (hmarked : ∃ now, .marked c now ∈ s.state.leases) :
    LeaseInv t := by
  refine ⟨?_, fun x hx m hm ↦ ?_, ?_, fun c' hc hsent ↦ ?_, fun c' hc ↦ ?_⟩
  · rw [huntil]
    exact Nat.le_trans hs.bound (Nat.add_le_add_right hclock _)
  · rw [hleases] at hx
    rw [huntil]
    exact (hs.kept x hx m hm).imp_right fun h ↦ h.mono hclock hgrown
  · rw [hleases]
    exact hs.respected.imp (Respected.mono hclock hgrown)
  · rw [hhistory, mem_append, mem_singleton] at hsent
    rw [hleases]
    rcases hsent with hsent | hsent
    · exact hs.answered c' hc hsent
    · obtain rfl := (Event.sent.inj hsent).1
      exact hmarked
  · rw [hhistory, count_append]
    by_cases h : c' = c
    · subst h
      simp [count_eq_zero_of_not_mem hnew]
    have hne : Event.sent c accepted ≠ .sent c' accepted := by
      intro he
      exact h (Event.sent.inj he).1.symm
    rw [count_singleton, if_neg (by simpa using hne)]
    exact hs.once c' hc

theorem LeaseInv.measured {now remaining : Nat} (hs : LeaseInv s) (hclock : s.clock ≤ t.clock)
    (hgrown : Grown p s.state t.state) (hhistory : t.state.history = s.state.history)
    (hleases : t.state.leases = s.state.leases ++ [.measured c now remaining])
    (hnow : now ≤ t.clock) (hzero : remaining = 0 → s.state.activityUntil ≤ now)
    (hle : s.state.activityUntil ≤ t.state.activityUntil)
    (hbound : t.state.activityUntil ≤ t.clock + leaseSeconds) : LeaseInv t := by
  refine hs.note hclock hgrown hhistory _ hleases hbound (fun x hx m hm ↦ ?_) nofun
    fun x hx m hm c' now' hy ↦ ?_
  · exact (hs.kept x hx m hm).imp (fun h ↦ Nat.le_trans h hle) fun h ↦ h.mono hclock hgrown
  obtain ⟨-, -, hremaining⟩ := Lease.measured.inj hy
  have huntil := hzero hremaining
  rcases hs.kept x hx m hm with h | h
  · exact .inl (by omega)
  · exact h.mono hclock hgrown

end

/-! ## The discipline -/

theorem others_refl (k : Nat) (s : Clocked (Hub cfg)) :
    s.clock ≤ s.clock ∧ Grown (·.socket ≠ k) s.state s.state :=
  ⟨Nat.le_refl _, .refl s.state⟩

theorem others_trans {k : Nat} {s t u : Clocked (Hub cfg)}
    (hst : s.clock ≤ t.clock ∧ Grown (·.socket ≠ k) s.state t.state)
    (htu : t.clock ≤ u.clock ∧ Grown (·.socket ≠ k) t.state u.state) :
    s.clock ≤ u.clock ∧ Grown (·.socket ≠ k) s.state u.state :=
  ⟨Nat.le_trans hst.1 htu.1, hst.2.trans htu.2⟩

/-- Handlers note down what they do in their own name, and the clock is not turned back. -/
def leaseDiscipline (cfg : Config) : Discipline (Clocked (Hub cfg)) where
  Inv := LeaseInv
  Allowed := KeepsLease
  Guar k s t := Grown (·.socket = k) s.state t.state
  Rely k s t := s.clock ≤ t.clock ∧ Grown (·.socket ≠ k) s.state t.state
  rely_refl := others_refl
  rely_trans := others_trans
  spread hne _ hallowed hguar := ⟨hallowed.1, hguar.mono fun _ hc h ↦ hne (h.symm.trans hc)⟩

section

variable {s t : Clocked (Hub cfg)} {c : Connection cfg} {K : Kind → Prop} {i : Env} {k : Nat}

theorem Section.guar (h : Section c K i s.state t.state) :
    (leaseDiscipline cfg).Guar c.socket s t :=
  h.grown.mono fun _ h ↦ congrArg Connection.socket h

/-- A section that sends nothing in the name of a message answers none. -/
theorem Section.count_sent (h : Section c K i s.state t.state) (hreply : c.isMessage → ¬ K .reply)
    (c' : Connection cfg) (hc : c'.isMessage) :
    t.state.history.count (.sent c' accepted) = s.state.history.count (.sent c' accepted) := by
  obtain ⟨new, hnew, hown, -⟩ := h.effect (K := K) fun _ _ ↦ id
  have hnone : .sent c' accepted ∉ new := by
    intro hmem
    obtain ⟨hconnection, hkind⟩ := hown _ hmem
    have hcc : c' = c := hconnection
    subst hcc
    exact hreply hc hkind
  rw [hnew, count_append, count_eq_zero_of_not_mem hnone, Nat.add_zero]

/-- What a handler does that neither asks for the lease nor takes it. -/
theorem LeaseInv.section (hs : LeaseInv s) (hallowed : KeepsLease c.socket s t)
    (hnow : t.clock = i.now)
    (h : Section c K i s.state t.state) (hmeasure : ¬ K .measure) (hreserve : ¬ K .reserve)
    (hrelease : K .release → c.isInitiate = false) (hreply : c.isMessage → ¬ K .reply) :
    LeaseInv t := by
  obtain ⟨hclock, hgiveUp, -⟩ := hallowed
  have hbound := hs.bound
  cases h.leaseStep with
  | quiet hleases huntil => exact hs.quiet hclock h.grown hleases huntil (h.count_sent hreply)
  | measure _ _ hK => exact absurd hK hmeasure
  | reserve _ hK => exact absurd hK hreserve
  | mark _ hhistory hleases huntil =>
    refine hs.note hclock h.grown hhistory _ hleases (by omega) (fun x hx m hm ↦ ?_) ?_ nofun
    · exact (hs.kept x hx m hm).imp (fun _ ↦ by omega) fun h' ↦ h'.mono hclock h.grown
    intro m hm
    rw [Lease.message] at hm
    split at hm
    · obtain rfl := Option.mem_some_iff.mp hm
      exact huntil.ge
    · cases hm
  | release hK hhistory hleases huntil =>
    have hmay : MayGiveUp s.state t.clock (.released c) :=
      hgiveUp _ (by rw [hleases, drop_left]; exact mem_singleton_self _)
    rw [MayGiveUp, if_neg (by simp [hrelease hK])] at hmay
    refine hs.note hclock h.grown hhistory _ hleases (by omega) (fun x hx m hm ↦ ?_) nofun nofun
    by_cases hrunning : t.clock < m.2 + leaseSeconds
    · refine .inr (.inr ?_)
      rw [hhistory]
      exact hmay x hx m hm hrunning
    · exact .inr (.inl (by omega))

/-- The handlers that neither have a message nor ask for the lease. -/
theorem handleConnection_keeps (hbusy : c.isBusy = false) (hmessage : c.isMessage = false) :
    ((handleConnection c).clocked Env.now).Ok (leaseDiscipline cfg) c.socket
    (fun _ _ ↦ True) s := by
  have hinitiate : c.isInitiate = false := by
    rw [Connection.isMessage, Bool.or_eq_false_iff] at hmessage
    exact hmessage.2
  have htakes : (handleConnection c).Takes (Section c fun k ↦ k ≠ .measure ∧ k ≠ .reserve) := by
    refine handleConnection_takes c (fun k h h' _ ↦ ⟨h, h'⟩) ?_ ?_ fun _ ↦ by simp
    · simp [hbusy]
    · simp [hinitiate]
  refine htakes.clocked.ok (Discipline.stable_true _ _) ?_ trivial
  rintro i s t - hinv hallowed ⟨hnow, h⟩
  exact ⟨hinv.section hallowed hnow h (by simp) (by simp) (fun _ ↦ hinitiate) (by simp [hmessage]),
    h.guar, trivial⟩

/-! ## Handlers that ask for the lease -/

theorem past_stable (now : Nat) : (leaseDiscipline cfg).Stable k fun s ↦ now ≤ s.clock :=
  fun _ _ hs hst ↦ Nat.le_trans hs hst.1

variable {α : Type} {m : Handler cfg α} {R : Clocked (Hub cfg) → Prop}

/-- A section that does nothing to the lease, of a handler that has no message. -/
theorem plain_keeps (hmessage : c.isMessage = false) (hm : m.Takes (Section c (·.isNoted))) :
    (m.clocked Env.now).Ok (leaseDiscipline cfg) c.socket (fun _ _ ↦ True) s := by
  refine hm.clocked.ok (Discipline.stable_true _ _) ?_ trivial
  rintro i s t - hinv hallowed ⟨hnow, h⟩
  exact ⟨hinv.section hallowed hnow h (by simp [Kind.isNoted]) (by simp [Kind.isNoted])
    (by simp [Kind.isNoted]) (by simp [hmessage]), h.guar, trivial⟩

/-- A section that only looks, at the time or at the hub. -/
theorem read_keeps {f : Env → Hub cfg → α} {P : Clocked (Hub cfg) → Prop}
    {Q : α → Clocked (Hub cfg) → Prop} (hP : (leaseDiscipline cfg).Stable c.socket P)
    (hQ : ∀ a, (leaseDiscipline cfg).Stable c.socket (Q a)) (hs : P s)
    (h : ∀ i t, P t → t.clock ≤ i.now → Q (f i t.state) ⟨i.now, t.state⟩) :
    ((atomic fun i s ↦ (f i s, s)).clocked Env.now).Ok (leaseDiscipline cfg) c.socket Q s := by
  refine ok_clocked_atomic hP hQ hs ?_
  rintro i t u ht hinv rfl hallowed
  have hinv' : LeaseInv ⟨i.now, t.state⟩ :=
    hinv.quiet hallowed.1 (.refl (p := fun _ ↦ True) t.state) rfl rfl fun _ _ ↦ rfl
  exact ⟨hinv', .refl t.state, h i t ht hallowed.1⟩

theorem busyRemaining_keeps :
    ((busyRemaining c).clocked Env.now).Ok (leaseDiscipline cfg) c.socket (fun _ _ ↦ True) s := by
  have htrue := (leaseDiscipline cfg).stable_true c.socket
  refine ok_clocked_bind (R := fun _ _ ↦ True) (read_keeps htrue (fun _ ↦ htrue) trivial
    fun _ _ _ _ ↦ trivial) fun remaining t _ ↦ ?_
  refine ok_clocked_bind (R := fun now s ↦ now ≤ s.clock) (read_keeps htrue past_stable trivial
    fun _ _ _ _ ↦ Nat.le_refl _) fun now t ht ↦ ?_
  refine ok_clocked_atomic (past_stable now) (fun _ ↦ htrue) ht ?_
  rintro i t u ht hinv rfl hallowed
  have h : Section c (· = .measure) i t.state
      (t.state.noteLease (.measured c now (t.state.lease remaining now))) := .measure _ _ _ rfl
  refine ⟨hinv.measured hallowed.1 h.grown rfl rfl ?_ Hub.activityUntil_le (Nat.le_refl _) ?_,
    h.grown.mono fun _ h ↦ congrArg Connection.socket h, trivial⟩
  · exact Nat.le_trans ht hallowed.1
  · exact Nat.le_trans hinv.bound (Nat.add_le_add_right hallowed.1 _)

/-- `BUSY`. -/
theorem handleConnection_measures (hbusy : c.isBusy) :
    ((handleConnection c).clocked Env.now).Ok (leaseDiscipline cfg) c.socket
    (fun _ _ ↦ True) s := by
  have hcommand : c.command = some .busy := by
    rw [Connection.isBusy] at hbusy
    split at hbusy
    · assumption
    · cases hbusy
  have hmessage : c.isMessage = false := by
    simp [Connection.isMessage, Connection.isSay, Connection.isInitiate, hcommand]
  refine ok_clocked_bind (plain_keeps hmessage markSeen_takes) fun _ t _ ↦ ?_
  refine ok_clocked_bind (R := fun _ _ ↦ True) ?_ fun _ t _ ↦
    plain_keeps hmessage (networkClose_takes rfl)
  rw [serveLine, hcommand]
  refine ok_clocked_bind (plain_keeps hmessage (checkTurn_takes rfl)) fun _ t _ ↦ ?_
  exact ok_clocked_bind busyRemaining_keeps fun _ t _ ↦
    plain_keeps hmessage (send_takes (K := (·.isNoted)) rfl _)

/-! ## Handlers that have a message -/

/-- What stays true as time goes by and notes are added. -/
def Lasting (R : Clocked (Hub cfg) → Prop) : Prop :=
  ∀ s t, s.clock ≤ t.clock → Grown (fun _ ↦ True) s.state t.state → R s → R t

/-- The message of `c` has not been answered, and `R`. -/
def Awaits (c : Connection cfg) (R : Clocked (Hub cfg) → Prop) (s : Clocked (Hub cfg)) : Prop :=
  .sent c accepted ∉ s.state.history ∧ R s

theorem awaits_stable (hR : Lasting R) : (leaseDiscipline cfg).Stable c.socket (Awaits c R) := by
  rintro s t ⟨hnew, hs⟩ ⟨hclock, hgrown⟩
  refine ⟨fun hsent ↦ hnew ?_, hR s t hclock (hgrown.mono fun _ _ ↦ trivial) hs⟩
  exact hgrown.history_of_not hsent fun h ↦ h rfl

/-- The kinds of things a handler does on the way to its answer. -/
def OnTheWay (k : Kind) : Prop := k ≠ .reply ∧ k ≠ .measure ∧ k ≠ .reserve ∧ k ≠ .release
  deriving Decidable

theorem Awaits.section (hR : Lasting R) (hclock : s.clock ≤ t.clock)
    (h : Section c OnTheWay i s.state t.state) (hs : Awaits c R s) : Awaits c R t := by
  obtain ⟨new, hnew, hown, -⟩ := h.effect (K := OnTheWay) fun _ _ ↦ id
  refine ⟨fun hsent ↦ ?_, hR s t hclock (h.grown.mono fun _ _ ↦ trivial) hs.2⟩
  rw [hnew] at hsent
  exact (mem_append.mp hsent).elim hs.1 fun hmem ↦ (hown _ hmem).2.1 rfl

theorem awaits_keeps (hR : Lasting R) (hm : m.Takes (Section c OnTheWay)) (hs : Awaits c R s) :
    (m.clocked Env.now).Ok (leaseDiscipline cfg) c.socket (fun _ ↦ Awaits c R) s := by
  refine hm.clocked.ok (awaits_stable hR) ?_ hs
  rintro i s t hs hinv hallowed ⟨hnow, h⟩
  exact ⟨hinv.section hallowed hnow h (by simp [OnTheWay]) (by simp [OnTheWay])
    (by simp [OnTheWay]) (by simp [OnTheWay]), h.guar, hs.section hR hallowed.1 h⟩

theorem lasting_true : Lasting fun _ : Clocked (Hub cfg) ↦ True := fun _ _ _ _ _ ↦ trivial

theorem lasting_past (now : Nat) : Lasting fun s : Clocked (Hub cfg) ↦ now ≤ s.clock :=
  fun _ _ hclock _ hs ↦ Nat.le_trans hs hclock

/-- The lease of `c` is marked. -/
def Marked (c : Connection cfg) (s : Clocked (Hub cfg)) : Prop :=
  ∃ now, .marked c now ∈ s.state.leases

theorem lasting_marked : Lasting (Marked c) :=
  fun _ _ _ hgrown ⟨now, hnow⟩ ↦ ⟨now, hgrown.mem_leases hnow⟩

/-- The initiation of `c` has taken the lease when the leases of all messages before it were
over. -/
def Reserved (c : Connection cfg) (s : Clocked (Hub cfg)) : Prop :=
  (∃ x ∈ s.state.leases, x.reserves c) ∧
    ∀ x ∈ s.state.leases.takeWhile fun x ↦ !x.reserves c, ∀ m ∈ x.message, Over s m.1 m.2

theorem takeWhile_append_of_reserves {leases : List (Lease cfg)} (h : ∃ x ∈ leases, x.reserves c)
    (new : List (Lease cfg)) : (leases ++ new).takeWhile (fun x ↦ !x.reserves c) =
      leases.takeWhile fun x ↦ !x.reserves c := by
  obtain ⟨x, hx, hreserves⟩ := h
  rw [takeWhile_append, if_neg]
  intro hlength
  have hfront := takeWhile_prefix (l := leases) fun x ↦ !Lease.reserves c x
  have hall := takeWhile_eq_self_iff.mp (hfront.eq_of_length hlength) x hx
  simp [hreserves] at hall

theorem lasting_reserved : Lasting (Reserved c) := by
  rintro s t hclock hgrown ⟨htaken, hover⟩
  obtain ⟨new, hnew, -⟩ := hgrown.leases
  refine ⟨?_, fun x hx m hm ↦ ?_⟩
  · obtain ⟨x, hx, hreserves⟩ := htaken
    exact ⟨x, hgrown.mem_leases hx, hreserves⟩
  · rw [hnew, takeWhile_append_of_reserves htaken] at hx
    exact (hover x hx m hm).mono hclock hgrown

/-- `mark_activity`, after which the lease is marked. -/
theorem markActivity_keeps (hR : Lasting R) (hs : Awaits c R s) :
    ((markActivity c).clocked Env.now).Ok (leaseDiscipline cfg) c.socket
      (fun _ ↦ Awaits c (Marked c)) s := by
  refine ok_clocked_bind (R := fun _ ↦ Awaits c (Marked c)) ?_ fun _ t ht ↦
    awaits_keeps lasting_marked (activityMark_takes (by decide)) ht
  refine ok_clocked_atomic (awaits_stable hR) (fun _ ↦ awaits_stable lasting_marked) hs ?_
  rintro i t u ht hinv rfl hallowed
  have h : Section c OnTheWay i t.state (t.state.mark c i.now) := .mark _ (by decide)
  refine ⟨hinv.section hallowed rfl h (by decide) (by decide) (fun h ↦ absurd h (by decide))
    (fun _ ↦ by decide), h.grown.mono fun _ h ↦ congrArg Connection.socket h, ?_, i.now, ?_⟩
  · exact (ht.section hR hallowed.1 h).1
  · simp [Hub.mark, Hub.noteLease]

theorem send_keeps (hs : Awaits c (Marked c) s) :
    ((send c accepted).clocked Env.now).Ok (leaseDiscipline cfg) c.socket (fun _ _ ↦ True) s := by
  refine ok_clocked_atomic (awaits_stable lasting_marked)
    (fun _ ↦ (leaseDiscipline cfg).stable_true _) hs ?_
  rintro i t u ht hinv rfl hallowed
  have h : Section c (· = .reply) i t.state (t.state.note (.sent c accepted)) := .send _ _ rfl
  exact ⟨hinv.answer hallowed.1 h.grown rfl rfl rfl ht.1 ht.2,
    h.grown.mono fun _ h ↦ congrArg Connection.socket h, trivial⟩

theorem send_other_keeps {line : Bytes} (hline : line ≠ accepted) :
    ((send c line).clocked Env.now).Ok (leaseDiscipline cfg) c.socket (fun _ _ ↦ True) s := by
  have htrue := (leaseDiscipline cfg).stable_true c.socket
  refine ok_clocked_atomic htrue (fun _ ↦ htrue) trivial ?_
  rintro i t u - hinv rfl hallowed
  have h : Section c (· = .reply) i t.state (t.state.note (.sent c line)) := .send _ _ rfl
  refine ⟨hinv.quiet hallowed.1 h.grown rfl rfl fun c' _ ↦ ?_,
    h.grown.mono fun _ h ↦ congrArg Connection.socket h, trivial⟩
  have hne : Event.sent c line ≠ .sent c' accepted := fun he ↦ hline (Event.sent.inj he).2
  change List.count (Event.sent c' accepted) (t.state.history ++ [Event.sent c line]) = _
  rw [count_append, count_singleton, if_neg (by simpa using hne), Nat.add_zero]

/-- `reserve_initiation`. -/
theorem reserveInitiation_keeps (hs : Awaits c (fun _ ↦ True) s) :
    ((reserveInitiation c).clocked Env.now).Ok (leaseDiscipline cfg) c.socket
      (fun remaining ↦ Awaits c fun s ↦ remaining = 0 → Reserved c s) s := by
  have hlasting (remaining : Nat) : Lasting fun s : Clocked (Hub cfg) ↦
      remaining = 0 → Reserved c s :=
    fun s t hclock hgrown hs h ↦ lasting_reserved s t hclock hgrown (hs h)
  refine ok_clocked_bind (R := fun now ↦ Awaits c fun s ↦ now ≤ s.clock)
    (read_keeps (awaits_stable lasting_true) (fun now ↦ awaits_stable (lasting_past now)) hs
      fun i t ht _ ↦ ⟨ht.1, Nat.le_refl _⟩) fun now t ht ↦ ?_
  refine ok_clocked_atomic (awaits_stable (lasting_past now))
    (fun remaining ↦ awaits_stable (hlasting remaining)) ht ?_
  rintro i t u ⟨hnew, hnow⟩ hinv rfl hallowed
  have h : Section c (· = .reserve) i t.state (t.state.reserve c now i).2 := .reserve _ _ rfl
  obtain ⟨hhistory, hleases, hzero, hpos⟩ := t.state.reserve_spec c now i
  have hclock : t.clock ≤ i.now := hallowed.1
  have hbound := hinv.bound
  refine ⟨hinv.measured hclock h.grown hhistory hleases (Nat.le_trans hnow hclock)
    (fun hr ↦ (hzero hr).1) ?_ ?_, h.grown.mono fun _ h ↦ congrArg Connection.socket h, ?_,
    fun hr ↦ ⟨?_, fun x hx m hm ↦ ?_⟩⟩
  · by_cases hr : (t.state.reserve c now i).1 = 0
    · have := hzero hr
      simp only
      omega
    · simp only [hpos hr, Nat.le_refl]
  · by_cases hr : (t.state.reserve c now i).1 = 0
    · have := hzero hr
      simp only
      omega
    · have := hpos hr
      simp only
      omega
  · simp only [hhistory]
    exact hnew
  · exact ⟨.measured c now 0, by simp [hleases, hr], by simp [Lease.reserves]⟩
  · -- what comes before the reservation was there when the lease was found to be over
    have hmem : x ∈ t.state.leases := by
      simp only [hleases, hr] at hx
      have hbefore := mem_takeWhile_imp hx
      have hfront := takeWhile_subset _ hx
      rcases mem_append.mp hfront with h | h
      · exact h
      · rw [mem_singleton.mp h] at hbefore
        simp [Lease.reserves] at hbefore
    rcases hinv.kept x hmem m hm with h' | h'
    · exact .inl (Nat.le_trans (Nat.le_trans h' (hzero hr).1) (Nat.le_trans hnow hclock))
    · exact h'.mono hclock h.grown

/-- `release_initiation`, where no message has been accepted since the reservation. -/
theorem releaseInitiation_keeps (hinitiate : c.isInitiate) (hs : Awaits c (Reserved c) s) :
    ((releaseInitiation c).clocked Env.now).Ok (leaseDiscipline cfg) c.socket
      (fun _ _ ↦ True) s := by
  refine ok_clocked_atomic (awaits_stable lasting_reserved)
    (fun _ ↦ (leaseDiscipline cfg).stable_true _) hs ?_
  rintro i t u ht hinv rfl hallowed
  have h : Section c (· = .release) i t.state (t.state.release c i.ok) := .release _ rfl
  have hmay : MayGiveUp t.state i.now (.released c) :=
    hallowed.2.1 _ (by simp [Hub.release, Hub.noteLease])
  rw [MayGiveUp, if_pos hinitiate] at hmay
  refine ⟨hinv.note hallowed.1 h.grown rfl _ rfl (Nat.zero_le _) (fun x hx m hm ↦ ?_) nofun nofun,
    h.grown.mono fun _ h ↦ congrArg Connection.socket h, trivial⟩
  rw [← takeWhile_append_dropWhile (p := fun x ↦ !Lease.reserves c x) (l := t.state.leases)]
    at hx
  rcases mem_append.mp hx with hx | hx
  · exact .inr ((ht.2.2 x hx m hm).mono hallowed.1 h.grown)
  · rw [hmay x hx] at hm
    cases hm

/-- `SAY` and `INITIATE`. -/
theorem handleConnection_accepts (hmessage : c.isMessage)
    (hs : .sent c accepted ∉ s.state.history) :
    ((handleConnection c).clocked Env.now).Ok (leaseDiscipline cfg) c.socket
    (fun _ _ ↦ True) s := by
  have hlasting (reserved : Bool) : Lasting fun s : Clocked (Hub cfg) ↦
      reserved = true → c.isInitiate ∧ Reserved c s := by
    intro s t hclock hgrown hs h
    exact ⟨(hs h).1, lasting_reserved s t hclock hgrown (hs h).2⟩
  have hsteps : Messaging (leaseDiscipline cfg) c (Awaits c fun _ ↦ True)
      (fun reserved ↦ Awaits c fun s ↦ reserved = true → c.isInitiate ∧ Reserved c s)
      (Awaits c (Marked c)) :=
    { markSeen := fun s hs ↦ awaits_keeps lasting_true markSeen_takes hs
      checkTurn := fun s hs ↦ awaits_keeps lasting_true (checkTurn_takes (by decide)) hs
      reserve := fun hinitiate s hs ↦ (reserveInitiation_keeps hs).mono fun remaining t ht hzero ↦
        ⟨ht.1, fun _ ↦ ⟨hinitiate, ht.2 hzero⟩⟩
      relay := fun reserved message s hs ↦ awaits_keeps (hlasting reserved)
        (relayMessage_takes (by decide) (by decide) (by decide) message) hs
      record := fun reserved _ _ hevent s hs ↦ awaits_keeps (hlasting reserved)
        (transcriptAppend_takes (hevent.symm ▸ by decide) _ _ _ _) hs
      mark := fun reserved s hs ↦ markActivity_keeps (hlasting reserved) hs
      release := fun s hs ↦ releaseInitiation_keeps (hs.2 rfl).1 ⟨hs.1, (hs.2 rfl).2⟩
      accept := fun s hs ↦ send_keeps hs
      refuse := fun _ hline s _ ↦ send_other_keeps hline
      close := fun s _ ↦ ?_ }
  · rw [Connection.isMessage, Bool.or_eq_true, or_comm] at hmessage
    exact hsteps.handleConnection (hmessage.imp_right fun hsay ↦ ⟨hsay, fun _ h ↦ ⟨h.1, nofun⟩⟩) s
      ⟨hs, trivial⟩
  · refine (networkClose_takes (K := (· = .close)) rfl).clocked.ok
      ((leaseDiscipline cfg).stable_true _) ?_ trivial
    rintro i s t - hinv hallowed ⟨hnow, h⟩
    exact ⟨hinv.section hallowed hnow h nofun nofun nofun fun _ ↦ nofun, h.guar, trivial⟩

end

/-! ## What those who ask are told -/

/-- The caller asks about the lease, with `BUSY` or with an initiation. -/
def Connection.asks (c : Connection cfg) : Bool := c.isBusy || c.isInitiate

/-- There are so many seconds left. -/
def busyLine (remaining : Nat) : Bytes := Bytes.ofAscii "BUSY " ++ decimal remaining ++ [10]

/-- The handler of `c` has read the lease, and if something was left then `line` says how much. -/
def Informed (s : Hub cfg) (c : Connection cfg) (line : Bytes) : Prop :=
  ∃ now remaining, .measured c now remaining ∈ s.leases ∧
    (remaining ≠ 0 → line = busyLine remaining)

/-- Whoever asks is told nothing before the lease has been read, and then the truth. -/
def Truthful (s : Hub cfg) : Prop :=
  ∀ (c : Connection cfg) (line : Bytes), c.asks → .sent c line ∈ s.history → Informed s c line

/-- What a handler has read it may say, whatever the others do. -/
def truthDiscipline (cfg : Config) : Discipline (Hub cfg) where
  Inv := Truthful
  Allowed _ _ _ := True
  Guar _ := Grown fun _ ↦ True
  Rely _ := Grown fun _ ↦ True
  rely_refl _ := .refl
  rely_trans := .trans
  spread _ _ _ hguar := hguar

section

variable {s t : Hub cfg} {c : Connection cfg} {K : Kind → Prop} {i : Env} {line : Bytes}

theorem Informed.mono {p : Connection cfg → Prop} (h : Informed s c line) (hgrown : Grown p s t) :
    Informed t c line := by
  obtain ⟨now, remaining, hread, hline⟩ := h
  exact ⟨now, remaining, hgrown.mem_leases hread, hline⟩

/-- A section of a handler that says nothing, or may say what it says. -/
theorem Truthful.section (hs : Truthful s) (h : Section c K i s t)
    (hreply : c.asks → K .reply → ∀ line, Informed s c line) : Truthful t := by
  obtain ⟨new, hnew, hown, -⟩ := h.effect (K := K) fun _ _ ↦ id
  intro c' line hasks hsent
  rw [hnew] at hsent
  rcases mem_append.mp hsent with hsent | hsent
  · exact (hs c' line hasks hsent).mono h.grown
  · obtain ⟨hconnection, hkind⟩ := hown _ hsent
    obtain rfl : c' = c := hconnection
    exact (hreply hasks hkind line).mono h.grown

variable {k : Nat} {α : Type} {m : Handler cfg α}

theorem truthful_of_takes (hm : m.Takes (Section c K))
    (hreply : c.asks → K .reply → ∀ line, Informed s c line) :
    m.Ok (truthDiscipline cfg) k (fun _ _ ↦ True) s := by
  have hstable : (truthDiscipline cfg).Stable k fun t ↦
      c.asks → K .reply → ∀ line, Informed t c line :=
    fun s t hs hst hasks hK line ↦ (hs hasks hK line).mono hst
  refine (hm.ok hstable (fun i s t hs hinv _ h ↦ ?_) hreply).mono fun _ _ _ ↦ trivial
  exact ⟨Truthful.section hinv h hs, h.grown.mono fun _ _ ↦ trivial,
    fun hasks hK line ↦ (hs hasks hK line).mono h.grown⟩

/-- The lease has been read. -/
def HasRead (c : Connection cfg) (remaining : Nat) (s : Hub cfg) : Prop :=
  ∃ now, .measured c now remaining ∈ s.leases

theorem read_stable (remaining : Nat) : (truthDiscipline cfg).Stable k (HasRead c remaining) :=
  fun _ _ ⟨now, hread⟩ hst ↦ ⟨now, hst.mem_leases hread⟩

theorem read_truthful {f : Env → Hub cfg → Nat × Hub cfg}
    (hf : ∀ i s, Section c (· ≠ .reply) i s (f i s).2)
    (hread : ∀ i s, HasRead c (f i s).1 (f i s).2) :
    (atomic f).Ok (truthDiscipline cfg) k (HasRead c) s := by
  refine ok_atomic (Discipline.stable_true _ _) read_stable trivial fun i t _ hinv _ ↦ ?_
  exact ⟨Truthful.section hinv (hf i t) fun _ h ↦ absurd rfl h,
    (hf i t).grown.mono fun _ _ ↦ trivial, hread i t⟩

theorem busyRemaining_truthful : (busyRemaining c).Ok (truthDiscipline cfg) k (HasRead c) s := by
  have hidle {α : Type} (f : Env → Hub cfg → α) {s : Hub cfg} :
      (atomic fun i s ↦ (f i s, s)).Ok (truthDiscipline cfg) k (fun _ _ ↦ True) s :=
    truthful_of_takes (c := c) (K := (· ≠ .reply)) (takes_atomic fun _ s ↦ .idle s)
      fun _ h ↦ absurd rfl h
  refine ok_bind (hidle _) fun remaining _ _ ↦ ok_bind (hidle _) fun now _ _ ↦ ?_
  refine read_truthful (fun _ s ↦ .measure s now remaining nofun) fun _ s ↦ ⟨now, ?_⟩
  exact mem_append_right _ (mem_singleton_self _)

theorem reserveInitiation_truthful :
    (reserveInitiation c).Ok (truthDiscipline cfg) k (HasRead c) s := by
  refine ok_bind (R := fun _ _ ↦ True) (truthful_of_takes (c := c) (K := (· ≠ .reply)) time_takes
    fun _ h ↦ absurd rfl h) fun now _ _ ↦ ?_
  refine read_truthful (fun _ s ↦ .reserve s now nofun) fun i s ↦ ⟨now, ?_⟩
  rw [(s.reserve_spec c now i).2.1]
  exact mem_append_right _ (mem_singleton_self _)

theorem busyReply_truthful {remaining : Nat} (hs : HasRead c remaining s) :
    (send c (busyReply remaining)).Ok (truthDiscipline cfg) k (fun _ _ ↦ True) s := by
  refine ok_atomic (read_stable remaining) (fun _ ↦ Discipline.stable_true _ _) hs ?_
  rintro i t ⟨now, hread⟩ hinv -
  have h : Section c (· = .reply) i t (t.note (.sent c (busyReply remaining))) := .send t _ rfl
  refine ⟨fun c' line hasks hsent ↦ ?_, h.grown.mono fun _ _ ↦ trivial, trivial⟩
  rcases mem_append.mp hsent with hsent | hsent
  · exact (hinv c' line hasks hsent).mono h.grown
  · obtain ⟨rfl, rfl⟩ := Event.sent.inj (mem_singleton.mp hsent)
    exact ⟨now, remaining, hread, fun hne ↦ if_neg hne⟩

theorem handleConnection_truthful (c : Connection cfg) :
    (handleConnection c).Ok (truthDiscipline cfg) k (fun _ _ ↦ True) s := by
  have hquiet {α : Type} {m : Handler cfg α} {s : Hub cfg} (hm : m.Takes (Section c (· ≠ .reply))) :
      m.Ok (truthDiscipline cfg) k (fun _ _ ↦ True) s :=
    truthful_of_takes hm fun _ h ↦ absurd rfl h
  by_cases hasks : c.asks
  · refine ok_bind (hquiet markSeen_takes) fun _ s _ ↦
      ok_bind (R := fun _ _ ↦ True) ?_ fun _ s _ ↦ hquiet (networkClose_takes (by simp))
    rw [serveLine]
    split
    · exact ok_pure (Discipline.stable_true _ _) trivial
    rename_i command hcommand
    refine ok_bind (hquiet (checkTurn_takes (by simp))) fun hasTurn s _ ↦ ?_
    simp only [Connection.asks, Connection.isBusy, Connection.isInitiate, hcommand] at hasks
    cases command
    case busy =>
      exact ok_bind busyRemaining_truthful fun remaining t ht ↦ busyReply_truthful ht
    case initiate message =>
      refine ok_bind reserveInitiation_truthful fun remaining t ht ↦ ?_
      split
      · exact busyReply_truthful ht
      rename_i hzero
      obtain rfl := not_not.mp hzero
      obtain ⟨now, hread⟩ := ht
      refine truthful_of_takes (K := fun _ ↦ True) (acceptMessage_takes .initiate trivial trivial
        trivial trivial trivial trivial (fun _ ↦ trivial) message) fun _ _ line ↦ ?_
      exact ⟨now, 0, hread, fun h ↦ absurd rfl h⟩
    all_goals simp at hasks
  · exact truthful_of_takes (handleConnection_section c) fun h ↦ absurd h hasks

theorem truthful_after (restored : Name) (activity : Option Int) (logTime : Log → Nat)
    (acts : List (Act (Call cfg) Env)) :
    Truthful ((Hub.boot cfg restored activity logTime).after acts) := by
  have hboot : Truthful (Hub.boot cfg restored activity logTime) := nofun
  exact (truthDiscipline cfg).run_inv hboot (fun _ _ ↦ handleConnection_truthful _)
    (System.along_of_forall fun _ _ _ ↦ trivial)

end

/-! ## The result -/

theorem leaseInv_boot (restored : Name) (activity : Option Int) (logTime : Log → Nat) :
    LeaseInv ⟨0, Hub.boot cfg restored activity logTime⟩ :=
  ⟨Nat.zero_le _, nofun, .nil, nofun, fun _ _ ↦ Nat.zero_le _⟩

theorem leaseInv_timed {restored : Name} {activity : Option Int} {logTime : Log → Nat}
    {acts : List (Act (Call cfg) Env)} (hacts : System.Along timedThread KeepsLease
      ⟨⟨0, Hub.boot cfg restored activity logTime⟩, []⟩ acts) :
    LeaseInv ((Hub.boot cfg restored activity logTime).timed acts) := by
  refine (leaseDiscipline cfg).run_inv (leaseInv_boot restored activity logTime)
    (fun k call ↦ ?_) hacts
  by_cases hmessage : (⟨k, call.1, call.2⟩ : Connection cfg).isMessage
  · exact handleConnection_accepts hmessage nofun
  by_cases hbusy : (⟨k, call.1, call.2⟩ : Connection cfg).isBusy
  · exact handleConnection_measures hbusy
  · exact handleConnection_keeps (by simpa using hbusy) (by simpa using hmessage)

/-- What is to hold of a run: if the last thing to happen in its first part is that a message is
answered `ACCEPTED`, then up to 300 seconds from then on every reading of the lease finds something
left, unless the end of the conversation has been recorded, and whoever asks for it, with `BUSY` or
with an initiation, and had not read it by then is told how much is left and nothing else. -/
def LeaseHolds (s : Hub cfg) (before : List (Act (Call cfg) Env)) (answer : Act (Call cfg) Env)
    (later : List (Act (Call cfg) Env)) : Prop :=
  ∀ c : Connection cfg, c.isMessage →
    (s.after (before ++ [answer])).history = (s.after before).history ++ [.sent c accepted] →
    (s.timed (before ++ answer :: later)).clock <
      (s.timed (before ++ [answer])).clock + leaseSeconds →
    (∀ e ∈ (s.after (before ++ answer :: later)).history.drop
      (s.after (before ++ [answer])).history.length, ¬ e.isEnd) →
    (∀ c' now remaining, .measured c' now remaining ∈
      (s.after (before ++ answer :: later)).leases.drop
        (s.after (before ++ [answer])).leases.length → remaining ≠ 0) ∧
    ∀ c' : Connection cfg, c'.asks →
      (∀ x ∈ (s.after (before ++ [answer])).leases, x.connection ≠ c') →
      ∀ line, .sent c' line ∈ (s.after (before ++ answer :: later)).history →
        ∃ remaining, remaining ≠ 0 ∧ line = busyLine remaining

/-- A message accepted last has not been ended unless the end has been recorded since. -/
theorem not_ended {history history' new : List (Event cfg)} {c : Connection cfg}
    (hhistory : history' = history ++ [.sent c accepted])
    (honce : history'.count (.sent c accepted) ≤ 1)
    (hnew : ∀ e ∈ new, ¬ e.isEnd) : ¬ Ended (history' ++ new) c := by
  rintro ⟨e, he, hend⟩
  have hnot : .sent c accepted ∉ history := by
    intro hmem
    have := count_pos_iff.mpr hmem
    rw [hhistory, count_append, count_singleton_self] at honce
    omega
  have hall : ∀ e ∈ history, (e ≠ .sent c accepted) = true := by
    intro e he
    simp only [ne_eq, eq_iff_iff, iff_true]
    rintro rfl
    exact hnot he
  rw [hhistory, append_assoc, dropWhile_append_of_pos (by simpa using hall)] at he
  rw [singleton_append, dropWhile_cons_of_neg (by simp), mem_cons] at he
  rcases he with rfl | he
  · cases hend
  · exact hnew e he hend

/-- An answer that is prompt is given at the time the lease was marked. -/
theorem prompt_of_keeps {s : Hub cfg} {before : List (Act (Call cfg) Env)}
    {answer : Act (Call cfg) Env} {c : Connection cfg} {x : Lease cfg} {m : Nat}
    (haccepted : (s.after (before ++ [answer])).history =
      (s.after before).history ++ [.sent c accepted])
    (hx : x ∈ (s.after before).leases)
    (hanswer : System.Along timedThread KeepsLease (System.run timedThread ⟨⟨0, s⟩, []⟩ before)
      [answer]) (hm : x.message = some (c, m)) : m = (s.timed (before ++ [answer])).clock := by
  cases answer with
  | spawn call =>
    have hsame : (s.after (before ++ [.spawn call])).history = (s.after before).history := by
      rw [Hub.after, System.run_append]
      rfl
    simp [hsame] at haccepted
  | advance k i =>
    obtain ⟨⟨-, -, hprompt⟩, -⟩ := hanswer
    have hshared : ((System.run timedThread ⟨⟨0, s⟩, []⟩ before).act timedThread
        (.advance k i)).shared = s.timed (before ++ [.advance k i]) := by
      rw [Hub.timed, System.run_append]
      rfl
    rw [hshared] at hprompt
    change ∀ e ∈ (s.timed _).state.history.drop (s.timed before).state.history.length,
      Prompt (s.timed before).state _ e at hprompt
    rw [s.timed_state, s.timed_state, haccepted, drop_left] at hprompt
    exact hprompt _ (mem_singleton_self _) rfl x hx (c, m) hm rfl

/-- Within 300 seconds from the answer every reading of the lease finds something left. -/
theorem readings_kept {s : Hub cfg} {before later : List (Act (Call cfg) Env)}
    {answer : Act (Call cfg) Env} {c : Connection cfg}
    (hanswered : LeaseInv (s.timed (before ++ [answer])))
    (hall : LeaseInv (s.timed (before ++ [answer] ++ later)))
    (hanswer : System.Along timedThread KeepsLease (System.run timedThread ⟨⟨0, s⟩, []⟩ before)
      [answer]) (hc : c.isMessage)
    (haccepted : (s.after (before ++ [answer])).history =
      (s.after before).history ++ [.sent c accepted])
    (hsoon : (s.timed (before ++ [answer] ++ later)).clock <
      (s.timed (before ++ [answer])).clock + leaseSeconds)
    (hend : ∀ e ∈ (s.after (before ++ [answer] ++ later)).history.drop
      (s.after (before ++ [answer])).history.length, ¬ e.isEnd)
    {c' : Connection cfg} {now remaining : Nat}
    (hread : .measured c' now remaining ∈ (s.after (before ++ [answer] ++ later)).leases.drop
      (s.after (before ++ [answer])).leases.length) : remaining ≠ 0 := by
  intro hzero
  have hsent : .sent c accepted ∈ (s.timed (before ++ [answer])).state.history := by
    rw [s.timed_state, haccepted]
    simp
  obtain ⟨m, hm⟩ := hanswered.answered c hc hsent
  have hmessage : (Lease.marked c m).message = some (c, m) := if_pos hc
  -- the lease had been marked when the answer was sent, at the same time
  have hprompt : m = (s.timed (before ++ [answer])).clock := by
    refine prompt_of_keeps haccepted ?_ hanswer hmessage
    rw [s.timed_state] at hm
    rw [← s.after_leases_of_history before answer (by simp [haccepted])]
    exact hm
  obtain ⟨new, hnew, -⟩ := (s.after_grown (before ++ [answer]) later).leases
  obtain ⟨events, hevents, -⟩ := (s.after_grown (before ++ [answer]) later).history
  have hpairs := hall.respected
  rw [s.timed_state] at hpairs hm
  rw [hnew, drop_left] at hread
  rw [hnew, pairwise_append] at hpairs
  rcases hpairs.2.2 _ hm _ hread (c, m) hmessage c' now (hzero ▸ rfl) with hover | hover
  · simp only at hover
    omega
  rw [s.timed_state, hevents] at hover
  rw [hevents, drop_left] at hend
  refine not_ended haccepted ?_ hend hover
  rw [← s.timed_state]
  exact hanswered.once c hc

/-- **Wherever no lease is given up but by those who may and answers are prompt, the lease of an
accepted message holds.** -/
theorem lease_kept (restored : Name) (activity : Option Int) (logTime : Log → Nat)
    (before : List (Act (Call cfg) Env)) (answer : Act (Call cfg) Env)
    (later : List (Act (Call cfg) Env))
    (hacts : System.Along timedThread KeepsLease ⟨⟨0, Hub.boot cfg restored activity logTime⟩, []⟩
      (before ++ answer :: later)) :
    LeaseHolds (Hub.boot cfg restored activity logTime) before answer later := by
  intro c hc haccepted hsoon hend
  rw [append_cons before answer later] at *
  have hfirst := (System.along_append.mp hacts).1
  have hkept := @readings_kept _ _ _ _ _ _ (leaseInv_timed hfirst) (leaseInv_timed hacts)
    (System.along_append.mp hfirst).2 hc haccepted hsoon hend
  refine ⟨fun _ _ _ ↦ hkept, fun c' hasks hfresh line hsent ↦ ?_⟩
  obtain ⟨now, remaining, hread, hline⟩ := truthful_after restored activity logTime _ c' line hasks
    hsent
  obtain ⟨new, hnew, -⟩ :=
    ((Hub.boot cfg restored activity logTime).after_grown (before ++ [answer]) later).leases
  rw [hnew] at hread
  -- what it was told goes by a reading of its own, which was after the answer
  have hlater : .measured c' now remaining ∈ new :=
    (mem_append.mp hread).resolve_left fun h ↦ hfresh _ h rfl
  have hne : remaining ≠ 0 := hkept (by rw [hnew, drop_left]; exact hlater)
  exact ⟨remaining, hne, hline hne⟩

namespace small

/-- Bob drops by, and alice says something; all but the answer. -/
def aliceSpeaks : List (Act (Call small) Env) :=
  [connects bob none] ++ goesOn 0 2 ++ [connects alice (some "SAY hello")] ++ goesOn 1 10

/-- The answer. -/
def aliceAnswered : Act (Call small) Env := .advance 1 noon

/-- Carol would like to begin another conversation, and bob asks how long this one takes. -/
def carolIsRefused : List (Act (Call small) Env) :=
  [connects carol (some "INITIATE bob, hello")] ++ goesOn 2 10 ++ [connects bob (some "BUSY")] ++
    goesOn 3 10

/-- Carol begins a conversation with herself, and before she is told that this will not do alice
says something; all but the answer to her. -/
def carolInitiates : List (Act (Call small) Env) :=
  [connects bob none, connects alice (some "SAY hello"),
    connects carol (some "INITIATE carol, hello")] ++ goesOn 0 2 ++ goesOn 2 4 ++ goesOn 1 10

/-- Carol is told, and bob asks how long the conversation takes. -/
def carolGivesUp : List (Act (Call small) Env) :=
  goesOn 2 5 ++ [connects bob (some "BUSY")] ++ goesOn 3 10

end small

theorem lease_kept_alice :
    System.Along timedThread KeepsLease ⟨⟨0, small.start⟩, []⟩
        (small.aliceSpeaks ++ small.aliceAnswered :: small.carolIsRefused) ∧
      LeaseHolds small.start small.aliceSpeaks small.aliceAnswered small.carolIsRefused :=
  ⟨by decide +kernel, lease_kept _ _ _ _ _ _ (by decide +kernel)⟩

/-- **A run in which carol's failed initiation takes away the lease of alice's message: bob is told
at once that there is no conversation.** -/
theorem lease_lost :
    System.Along timedThread (fun _ s t ↦ s.clock ≤ t.clock) ⟨⟨0, small.start⟩, []⟩
        (small.carolInitiates ++ small.aliceAnswered :: small.carolGivesUp) ∧
      ¬ LeaseHolds small.start small.carolInitiates small.aliceAnswered small.carolGivesUp := by
  refine ⟨by decide +kernel, fun h ↦ ?_⟩
  let alice : Connection small := ⟨1, small.alice, some (Bytes.ofAscii "SAY hello")⟩
  let bob : Connection small := ⟨3, small.bob, some (Bytes.ofAscii "BUSY")⟩
  obtain ⟨-, htold⟩ := h alice (by decide) (by decide +kernel) (by decide +kernel)
    (by decide +kernel)
  obtain ⟨remaining, -, hline⟩ := htold bob (by decide) (by decide +kernel) (Bytes.ofAscii "IDLE\n")
    (by decide +kernel)
  exact absurd (congrArg (·.head?) hline) (by simp [busyLine, Bytes.ofAscii])

end Noobia.Council
