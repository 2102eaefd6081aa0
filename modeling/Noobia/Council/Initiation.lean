import Noobia.Council.Timed

/-!
# One initiation at a time

Whoever wants to begin a conversation takes the lease on it first.  `reserve_initiation` reads the
clock, then looks at the lease and takes it if there is nothing left of it, all under the lock.
While an initiation is at work nobody else should get that far, and two initiations that are both
accepted should be 300 seconds apart.

An initiation that fails gives the lease up before it answers.  From then on another may take it,
while the first has still to send its answer: it is the lease that is held by one at a time, and an
initiation is `Underway` from taking it until it gives it up or comes to its end.  And the lease is
free again when 300 seconds have passed, so an initiation has to be done before that; to be done by
then is not enough.  `initiations_overlap` has a run for each.

`one_initiation` is the property itself.  It holds in every interleaving of handlers in which the
clock is not turned back, no conversation is ended, and every initiation is done within less than
300 seconds of its look at the clock.
-/

namespace Noobia.Council

open List

open Routine

variable {cfg : Config}

/-! ## The property and the condition -/

/-- An initiation that took the lease, and the time it went by. -/
def Lease.initiation : Lease cfg → Option (Connection cfg × Nat)
  | measured c now 0 => if c.isInitiate then some (c, now) else none
  | _ => none

/-- When an initiation was accepted. -/
def Lease.acceptance : Lease cfg → Option (Connection cfg × Nat)
  | marked c now => if c.isInitiate then some (c, now) else none
  | _ => none

/-- The initiation of `c` has taken the lease and has neither given it up nor come to its end. -/
def Underway (s : Hub cfg) (c : Connection cfg) (now : Nat) : Prop :=
  (∃ x ∈ s.leases, x.initiation = some (c, now)) ∧ .released c ∉ s.leases ∧ .closed c ∉ s.history
  deriving Decidable

/-- What is to hold of the hub. -/
structure OneInitiation (s : Hub cfg) : Prop where
  /-- At most one initiation is under way. -/
  exclusive : ∀ c c' now now', Underway s c now → Underway s c' now' → c = c'
  /-- Initiations are accepted at least 300 seconds apart. -/
  apart : ∀ x ∈ s.leases, ∀ x' ∈ s.leases, ∀ a ∈ x.acceptance, ∀ a' ∈ x'.acceptance, a.1 ≠ a'.1 →
    a.2 + leaseSeconds ≤ a'.2 ∨ a'.2 + leaseSeconds ≤ a.2
  /-- An initiation that is answered `ACCEPTED` has been accepted. -/
  answered : ∀ c : Connection cfg, c.isInitiate → .sent c accepted ∈ s.history →
    ∃ x ∈ s.leases, ∃ now, x.acceptance = some (c, now)

/-- No conversation is ended: only initiations give the lease up. -/
def Lease.byInitiation : Lease cfg → Prop
  | released c => c.isInitiate
  | _ => True

instance (x : Lease cfg) : Decidable x.byInitiation :=
  match x with
  | .released c => inferInstanceAs (Decidable (c.isInitiate = true))
  | .measured .. | .marked .. => .isTrue trivial

/-- A section at which the clock is not turned back, no conversation is ended, and `within` so many
seconds of the time they went by all initiations that took the lease and are not done. -/
def Timely (within : Nat → Prop) (_ : Nat) (s t : Clocked (Hub cfg)) : Prop :=
  s.clock ≤ t.clock ∧ (∀ x ∈ t.state.leases.drop s.state.leases.length, x.byInitiation) ∧
    ∀ x ∈ s.state.leases, ∀ a ∈ x.initiation, .closed a.1 ∉ s.state.history →
      within (t.clock - a.2)

instance (within : Nat → Prop) [DecidablePred within] (k : Nat) (s t : Clocked (Hub cfg)) :
    Decidable (Timely within k s t) :=
  inferInstanceAs (Decidable (_ ∧ _))

/-! ## The discipline -/

/-- What holds throughout. -/
structure InitiationInv (s : Clocked (Hub cfg)) : Prop extends OneInitiation s.state where
  bound : s.state.activityUntil ≤ s.clock + leaseSeconds
  held : ∀ c now, Underway s.state c now → now + leaseSeconds ≤ s.state.activityUntil
  spaced : ∀ x ∈ s.state.leases, ∀ a ∈ x.acceptance,
    a.2 + leaseSeconds ≤ s.state.activityUntil ∨ a.2 + leaseSeconds ≤ s.clock

/-- Acceptances have been added only in the name of connections with `p`. -/
def AcceptedBy (p : Connection cfg → Prop) (s t : Hub cfg) : Prop :=
  ∀ x ∈ t.leases, ∀ a ∈ x.acceptance, x ∈ s.leases ∨ p a.1

variable {p : Connection cfg → Prop}

theorem AcceptedBy.mono {s t : Hub cfg} (h : AcceptedBy (fun _ ↦ False) s t) : AcceptedBy p s t :=
  fun x hx a ha ↦ (h x hx a ha).imp_right False.elim

/-- What a handler relies on: while its own initiation is under way no other is accepted. -/
def InitiationRely (k : Nat) (s t : Clocked (Hub cfg)) : Prop :=
  s.clock ≤ t.clock ∧ Grown (·.socket ≠ k) s.state t.state ∧
    ∀ c now, c.socket = k → Underway s.state c now → AcceptedBy (fun _ ↦ False) s.state t.state

variable {now : Nat}

theorem Underway.grown {s t : Hub cfg} {c : Connection cfg} (h : Underway s c now)
    (hgrown : Grown (·.socket ≠ c.socket) s t) : Underway t c now := by
  obtain ⟨⟨x, hx, hc⟩, hreleased, hclosed⟩ := h
  exact ⟨⟨x, hgrown.mem_leases hx, hc⟩,
    fun h ↦ hreleased (hgrown.leases_of_not h fun hne ↦ hne rfl),
    fun h ↦ hclosed (hgrown.history_of_not h fun hne ↦ hne rfl)⟩

/-- Handlers accept initiations only that are under way. -/
def initiationDiscipline (cfg : Config) : Discipline (Clocked (Hub cfg)) where
  Inv := InitiationInv
  Allowed := Timely (· < leaseSeconds)
  Guar k s t := Grown (·.socket = k) s.state t.state ∧
    AcceptedBy (fun c ↦ c.socket = k ∧ ∃ now, Underway s.state c now) s.state t.state
  Rely := InitiationRely
  rely_refl _ s := ⟨Nat.le_refl _, .refl s.state, fun _ _ _ _ _ hx _ _ ↦ .inl hx⟩
  rely_trans := by
    rintro k s t u ⟨hclock, hgrown, haccepted⟩ ⟨hclock', hgrown', haccepted'⟩
    refine ⟨Nat.le_trans hclock hclock', hgrown.trans hgrown', fun c now hk hc x hx a ha ↦ ?_⟩
    rcases haccepted' c now hk (hc.grown (hk ▸ hgrown)) x hx a ha with hx | h
    · exact haccepted c now hk hc x hx a ha
    · exact .inr h
  spread := by
    rintro j k s t hne hinv hallowed ⟨hgrown, haccepted⟩
    refine ⟨hallowed.1, hgrown.mono fun _ hc h ↦ hne (h.symm.trans hc), ?_⟩
    intro c now hj hc x hx a ha
    rcases haccepted x hx a ha with hx | ⟨hk, now', ha⟩
    · exact .inl hx
    · refine (hne (hj.symm.trans ?_)).elim
      rw [hinv.exclusive c a.1 now now' hc ha, hk]

/-! ## What sections do -/

section

variable {s t : Clocked (Hub cfg)} {c : Connection cfg} {K : Kind → Prop} {i : Env}

/-- An initiation that is under way was so before, unless it has just taken the lease. -/
theorem Underway.of_grown {s t : Hub cfg} (hgrown : Grown p s t) (h : Underway t c now)
    (hnew : ∀ x ∈ t.leases, x.initiation = some (c, now) → x ∈ s.leases) : Underway s c now := by
  obtain ⟨⟨x, hx, hc⟩, hreleased, hclosed⟩ := h
  exact ⟨⟨x, hnew x hx hc, hc⟩, fun h ↦ hreleased (hgrown.mem_leases h),
    fun h ↦ hclosed (hgrown.mem_history h)⟩

/-- The initiation of `c` has been accepted. -/
def Accepted (c : Connection cfg) (s : Clocked (Hub cfg)) : Prop :=
  ∃ x ∈ s.state.leases, ∃ now, x.acceptance = some (c, now)

/-- A section that accepts nothing, and answers only what has been accepted. -/
theorem InitiationInv.kept (hs : InitiationInv s)
    (hgrown : Grown p s.state t.state) (haccepted : AcceptedBy (fun _ ↦ False) s.state t.state)
    (hanswered : ∀ c : Connection cfg, c.isInitiate → .sent c accepted ∈ t.state.history →
      .sent c accepted ∈ s.state.history ∨ Accepted c s)
    (hexclusive : ∀ c c' now now', Underway t.state c now → Underway t.state c' now' → c = c')
    (hbound : t.state.activityUntil ≤ t.clock + leaseSeconds)
    (hheld : ∀ c now, Underway t.state c now → now + leaseSeconds ≤ t.state.activityUntil)
    (hspaced : ∀ x ∈ s.state.leases, ∀ a ∈ x.acceptance,
      a.2 + leaseSeconds ≤ t.state.activityUntil ∨ a.2 + leaseSeconds ≤ t.clock) :
    InitiationInv t := by
  have hold (x : Lease cfg) (hx : x ∈ t.state.leases) (a : Connection cfg × Nat)
      (ha : a ∈ x.acceptance) : x ∈ s.state.leases := (haccepted x hx a ha).resolve_right id
  refine ⟨⟨hexclusive, fun x hx x' hx' a ha a' ha' ↦ ?_, fun c hc hsent ↦ ?_⟩, hbound, hheld,
    fun x hx a ha ↦ hspaced x (hold x hx a ha) a ha⟩
  · exact hs.apart x (hold x hx a ha) x' (hold x' hx' a' ha') a ha a' ha'
  · obtain ⟨x, hx, h⟩ := (hanswered c hc hsent).elim (hs.answered c hc) id
    exact ⟨x, hgrown.mem_leases hx, h⟩

/-- A section that takes no lease, gives none up before its time and accepts nothing. -/
theorem InitiationInv.step (hs : InitiationInv s)
    (hclock : s.clock ≤ t.clock) (hgrown : Grown p s.state t.state)
    (htaken : ∀ x ∈ t.state.leases, ∀ a ∈ x.initiation, x ∈ s.state.leases)
    (haccepted : AcceptedBy (fun _ ↦ False) s.state t.state)
    (hle : s.state.activityUntil ≤ t.state.activityUntil)
    (hbound : t.state.activityUntil ≤ t.clock + leaseSeconds)
    (hanswered : ∀ c : Connection cfg, c.isInitiate → .sent c accepted ∈ t.state.history →
      .sent c accepted ∈ s.state.history ∨ Accepted c s) : InitiationInv t := by
  have hunderway (c : Connection cfg) (now : Nat) (h : Underway t.state c now) :
      Underway s.state c now := h.of_grown hgrown fun x hx hc ↦ htaken x hx (c, now) hc
  refine hs.kept hgrown haccepted hanswered (fun c c' now now' h h' ↦ ?_) hbound (fun c now h ↦ ?_)
    fun x hx a ha ↦ (hs.spaced x hx a ha).imp (fun h ↦ Nat.le_trans h hle)
      fun h ↦ Nat.le_trans h hclock
  · exact hs.exclusive c c' now now' (hunderway c now h) (hunderway c' now' h')
  · exact Nat.le_trans (hs.held c now (hunderway c now h)) hle

/-- What handlers do that have nothing to do with an initiation, and those that have before and
after it. -/
theorem InitiationInv.section (hs : InitiationInv s)
    (hallowed : Timely (· < leaseSeconds) c.socket s t) (hnow : t.clock = i.now)
    (h : Section c K i s.state t.state) (hreserve : ¬ K .reserve)
    (hmeasure : c.isInitiate → ¬ K .measure) (hmark : c.isInitiate → ¬ K .mark)
    (hrelease : c.isInitiate → ¬ K .release) (hreply : c.isInitiate → ¬ K .reply) :
    InitiationInv t ∧ (initiationDiscipline cfg).Guar c.socket s t := by
  obtain ⟨hclock, hby, -⟩ := hallowed
  have hbound := hs.bound
  have hsent : ∀ c' : Connection cfg, c'.isInitiate → .sent c' accepted ∈ t.state.history →
      .sent c' accepted ∈ s.state.history := by
    intro c' hc' hsent
    obtain ⟨new, hnew, hown, -⟩ := h.effect (K := K) fun _ _ ↦ id
    rw [hnew] at hsent
    refine (mem_append.mp hsent).resolve_right fun hmem ↦ ?_
    obtain ⟨hconnection, hkind⟩ := hown _ hmem
    obtain rfl : c' = c := hconnection
    exact hreply hc' hkind
  have hguar : Grown (·.socket = c.socket) s.state t.state :=
    h.grown.mono fun _ h ↦ congrArg Connection.socket h
  -- all that can be added to the notes is one that is neither an initiation nor an acceptance
  have hstep (y : Option (Lease cfg)) (hleases : t.state.leases = s.state.leases ++ y.toList)
      (hy : ∀ x ∈ y, x.initiation = none ∧ x.acceptance = none)
      (hle : s.state.activityUntil ≤ t.state.activityUntil)
      (hbound : t.state.activityUntil ≤ t.clock + leaseSeconds) :
      InitiationInv t ∧ (initiationDiscipline cfg).Guar c.socket s t := by
    have hold (x : Lease cfg) (hx : x ∈ t.state.leases) :
        x ∈ s.state.leases ∨ x.initiation = none ∧ x.acceptance = none := by
      rw [hleases] at hx
      exact (mem_append.mp hx).imp_right fun hx ↦ hy x (Option.mem_toList.mp hx)
    have haccepted : AcceptedBy (fun _ ↦ False) s.state t.state := fun x hx a ha ↦
      (hold x hx).imp_right fun h ↦ by simp [h.2] at ha
    refine ⟨hs.step hclock hguar (fun x hx a ha ↦ ?_) haccepted hle hbound
      fun c' hc' h ↦ .inl (hsent c' hc' h), hguar, haccepted.mono⟩
    exact (hold x hx).resolve_right fun h ↦ by simp [h.1] at ha
  cases h.leaseStep with
  | quiet hleases huntil => exact hstep none (by simp [hleases]) nofun huntil.ge (by omega)
  | measure now remaining hK _ hleases huntil =>
    have hc : c.isInitiate = false := by simpa using fun hc ↦ hmeasure hc hK
    refine hstep (some _) hleases (fun x hx ↦ ?_) huntil.ge (by omega)
    obtain rfl := Option.mem_some_iff.mp hx
    refine ⟨?_, rfl⟩
    rw [Lease.initiation.eq_def]
    split
    · rename_i heq
      obtain ⟨rfl, -, -⟩ := Lease.measured.inj heq
      simp [hc]
    · rfl
  | reserve _ hK => exact absurd hK hreserve
  | mark hK _ hleases huntil =>
    have hc : c.isInitiate = false := by simpa using fun hc ↦ hmark hc hK
    refine hstep (some _) hleases (fun x hx ↦ ?_) (by omega) (by omega)
    obtain rfl := Option.mem_some_iff.mp hx
    exact ⟨rfl, by simp [Lease.acceptance, hc]⟩
  | release hK _ hleases =>
    have hc : c.isInitiate := hby (.released c) (by rw [hleases, drop_left]; simp)
    exact absurd hK (hrelease hc)

theorem handleConnection_excludes (hinitiate : c.isInitiate = false) :
    ((handleConnection c).clocked Env.now).Ok (initiationDiscipline cfg) c.socket
      (fun _ _ ↦ True) s := by
  have htakes : (handleConnection c).Takes (Section c (· ≠ .reserve)) := by
    refine handleConnection_takes c (fun k _ h _ ↦ h) (fun _ ↦ nofun) ?_ fun _ ↦ nofun
    simp [hinitiate]
  refine htakes.clocked.ok (Discipline.stable_true _ _) ?_ trivial
  rintro i s t - hinv hallowed ⟨hnow, h⟩
  have hstep := hinv.section hallowed hnow h (by simp) (by simp [hinitiate]) (by simp [hinitiate])
    (by simp [hinitiate]) (by simp [hinitiate])
  exact ⟨hstep.1, hstep.2, trivial⟩

/-! ## Handlers that initiate -/

/-- The kinds of things an initiation does besides taking the lease, marking and answering. -/
def Plain (k : Kind) : Prop := k.isNoted ∧ k ≠ .reply ∧ k ≠ .close
  deriving Decidable

theorem Section.plain (h : Section c Plain i s.state t.state) :
    t.state.leases = s.state.leases ∧
      (.closed c ∈ t.state.history → .closed c ∈ s.state.history) := by
  refine ⟨?_, fun hclosed ↦ ?_⟩
  · cases h.leaseStep with
    | quiet hleases => exact hleases
    | measure _ _ hK | reserve _ hK | mark hK | release hK => simp [Plain, Kind.isNoted] at hK
  · obtain ⟨new, hnew, hown, -⟩ := h.effect (K := Plain) fun _ _ ↦ id
    rw [hnew] at hclosed
    exact (mem_append.mp hclosed).resolve_right fun hmem ↦ (hown _ hmem).2.2.2 rfl

variable {P : Clocked (Hub cfg) → Prop}

theorem plain_excludes {α : Type} {m : Handler cfg α}
    (hP : (initiationDiscipline cfg).Stable c.socket P) (hm : m.Takes (Section c Plain))
    (hkeep : ∀ i s t, s.clock ≤ t.clock → Section c Plain i s.state t.state → P s → P t)
    (hs : P s) : (m.clocked Env.now).Ok (initiationDiscipline cfg) c.socket (fun _ ↦ P) s := by
  refine hm.clocked.ok hP ?_ hs
  rintro i s t hs hinv hallowed ⟨hnow, h⟩
  have hstep := hinv.section hallowed hnow h (by decide) (fun _ ↦ by decide) (fun _ ↦ by decide)
    (fun _ ↦ by decide) (fun _ ↦ by decide)
  exact ⟨hstep.1, hstep.2, hkeep i s t hallowed.1 h hs⟩

/-- The handler of `c` has done nothing about the lease yet. -/
def Untried (c : Connection cfg) (s : Clocked (Hub cfg)) : Prop :=
  (∀ x ∈ s.state.leases, x.connection ≠ c) ∧ .closed c ∉ s.state.history

theorem untried_stable : (initiationDiscipline cfg).Stable c.socket (Untried c) := by
  rintro s t ⟨hleases, hclosed⟩ ⟨-, hgrown, -⟩
  refine ⟨fun x hx hc ↦ ?_, fun h ↦ hclosed (hgrown.history_of_not h fun hne ↦ hne rfl)⟩
  exact hleases x (hgrown.leases_of_not hx fun hne ↦ hne (hc ▸ rfl)) hc

theorem Untried.plain (hs : Untried c s) (h : Section c Plain i s.state t.state) : Untried c t := by
  obtain ⟨hleases, hclosed⟩ := h.plain
  rw [Untried, hleases]
  exact ⟨hs.1, fun h ↦ hs.2 (hclosed h)⟩

/-- The initiation of `c` is under way, and those accepted before were accepted 300 seconds ago. -/
def Holding (c : Connection cfg) (now : Nat) (s : Clocked (Hub cfg)) : Prop :=
  Underway s.state c now ∧ ∀ x ∈ s.state.leases, ∀ a ∈ x.acceptance, a.2 + leaseSeconds ≤ s.clock

theorem holding_stable (now : Nat) :
    (initiationDiscipline cfg).Stable c.socket (Holding c now) := by
  rintro s t ⟨hunderway, hspaced⟩ ⟨hclock, hgrown, haccepted⟩
  refine ⟨hunderway.grown hgrown, fun x hx a ha ↦ ?_⟩
  have hx := (haccepted c now rfl hunderway x hx a ha).resolve_right id
  exact Nat.le_trans (hspaced x hx a ha) hclock

theorem Holding.plain (hs : Holding c now s) (hclock : s.clock ≤ t.clock)
    (h : Section c Plain i s.state t.state) : Holding c now t := by
  obtain ⟨hleases, hclosed⟩ := h.plain
  obtain ⟨⟨hinitiation, hreleased, hopen⟩, hspaced⟩ := hs
  refine ⟨⟨?_, ?_, fun h ↦ hopen (hclosed h)⟩, fun x hx a ha ↦ ?_⟩
  · rw [hleases]
    exact hinitiation
  · rw [hleases]
    exact hreleased
  · rw [hleases] at hx
    exact Nat.le_trans (hspaced x hx a ha) hclock

theorem accepted_stable : (initiationDiscipline cfg).Stable c.socket (Accepted c) := by
  rintro s t ⟨x, hx, h⟩ ⟨-, hgrown, -⟩
  exact ⟨x, hgrown.mem_leases hx, h⟩

/-- A section that does nothing to the lease and answers only what has been accepted. -/
theorem InitiationInv.still {k : Nat} (hs : InitiationInv s) (hclock : s.clock ≤ t.clock)
    (hgrown : Grown (·.socket = k) s.state t.state) (hleases : t.state.leases = s.state.leases)
    (huntil : t.state.activityUntil = s.state.activityUntil)
    (hanswered : ∀ c : Connection cfg, .sent c accepted ∈ t.state.history →
      .sent c accepted ∈ s.state.history ∨ Accepted c s) :
    InitiationInv t ∧ (initiationDiscipline cfg).Guar k s t := by
  have hbound := hs.bound
  refine ⟨hs.step hclock hgrown (fun x hx a _ ↦ hleases ▸ hx) (fun x hx a _ ↦ .inl (hleases ▸ hx))
    huntil.ge (by omega) fun c _ ↦ hanswered c, hgrown, fun x hx a _ ↦ .inl (hleases ▸ hx)⟩

theorem time_excludes {Q : Nat → Clocked (Hub cfg) → Prop}
    (hP : (initiationDiscipline cfg).Stable c.socket P)
    (hQ : ∀ now, (initiationDiscipline cfg).Stable c.socket (Q now)) (hs : P s)
    (h : ∀ now s, P s → s.clock ≤ now → Q now ⟨now, s.state⟩) :
    ((time : Handler cfg Nat).clocked Env.now).Ok (initiationDiscipline cfg) c.socket Q s := by
  refine ok_clocked_atomic hP hQ hs ?_
  rintro i t u ht hinv rfl hallowed
  have hstill := hinv.still (t := ⟨i.now, t.state⟩) (k := c.socket) hallowed.1 (.refl t.state) rfl
    rfl fun _ ↦ .inl
  exact ⟨hstill.1, hstill.2, h i.now t ht hallowed.1⟩

theorem activityMark_excludes (hs : Accepted c s) :
    ((activityMark : Handler cfg Unit).clocked Env.now).Ok (initiationDiscipline cfg) c.socket
      (fun _ ↦ Accepted c) s := by
  refine ok_clocked_bind (time_excludes accepted_stable (fun _ ↦ accepted_stable) hs
    fun _ _ hs _ ↦ hs) fun now t ht ↦ ?_
  refine ok_clocked_atomic accepted_stable (fun _ ↦ accepted_stable) ht ?_
  rintro i t u ht hinv rfl hallowed
  have hstill (u : Hub cfg) (hhistory : u.history = t.state.history)
      (hleases : u.leases = t.state.leases) (huntil : u.activityUntil = t.state.activityUntil) :
      InitiationInv ⟨i.now, u⟩ ∧ (initiationDiscipline cfg).Guar c.socket t ⟨i.now, u⟩ ∧
        Accepted c ⟨i.now, u⟩ := by
    have hgrown : Grown (·.socket = c.socket) t.state u :=
      ⟨⟨[], by simp [hhistory]⟩, ⟨[], by simp [hleases]⟩⟩
    have hstep := hinv.still (t := ⟨i.now, u⟩) hallowed.1 hgrown hleases huntil
      fun c h ↦ .inl (hhistory ▸ h)
    obtain ⟨x, hx, h⟩ := ht
    exact ⟨hstep.1, hstep.2, x, hleases ▸ hx, h⟩
  dsimp only
  split
  · exact hstill _ rfl rfl rfl
  · exact hstill _ rfl rfl rfl

/-- Lines to the caller; that it is accepted is said only to one that has been. -/
theorem send_excludes {line : Bytes} (hs : line = accepted → Accepted c s) :
    ((send c line).clocked Env.now).Ok (initiationDiscipline cfg) c.socket (fun _ _ ↦ True) s := by
  have hstable :
      (initiationDiscipline cfg).Stable c.socket fun s ↦ line = accepted → Accepted c s :=
    fun s t hs hst h ↦ accepted_stable s t (hs h) hst
  refine ok_clocked_atomic hstable (fun _ ↦ Discipline.stable_true _ _) hs ?_
  rintro i t u ht hinv rfl hallowed
  have h : Section c (· = .reply) i t.state (t.state.note (.sent c line)) := .send _ _ rfl
  have hstill := hinv.still (t := ⟨i.now, t.state.note (.sent c line)⟩) hallowed.1
    (h.grown.mono fun _ h ↦ congrArg Connection.socket h) rfl rfl fun c' hsent ↦ ?_
  · exact ⟨hstill.1, hstill.2, trivial⟩
  · rcases mem_append.mp hsent with hsent | hsent
    · exact .inl hsent
    · obtain ⟨rfl, rfl⟩ := Event.sent.inj (mem_singleton.mp hsent)
      exact .inr (ht rfl)

/-- `reserve_initiation`: nobody else can be under way when it succeeds. -/
theorem reserveInitiation_excludes (hinitiate : c.isInitiate) (hs : Untried c s) :
    ((reserveInitiation c).clocked Env.now).Ok (initiationDiscipline cfg) c.socket
      (fun remaining s ↦ remaining = 0 → ∃ now, Holding c now s) s := by
  have hstable (now : Nat) : (initiationDiscipline cfg).Stable c.socket
      fun s ↦ Untried c s ∧ now ≤ s.clock :=
    fun s t hs hst ↦ ⟨untried_stable s t hs.1 hst, Nat.le_trans hs.2 hst.1⟩
  have hpost (remaining : Nat) : (initiationDiscipline cfg).Stable c.socket
      fun s ↦ remaining = 0 → ∃ now, Holding c now s :=
    fun s t hs hst h ↦ (hs h).imp fun now hnow ↦ holding_stable now s t hnow hst
  refine ok_clocked_bind (time_excludes untried_stable hstable hs
    fun now s hs _ ↦ ⟨hs, Nat.le_refl _⟩) fun now t ht ↦ ?_
  refine ok_clocked_atomic (hstable now) hpost ht ?_
  rintro i t u ⟨huntried, hnow⟩ hinv rfl ⟨hclock, -, htimely⟩
  have h : Section c (· = .reserve) i t.state (t.state.reserve c now i).2 := .reserve _ _ rfl
  have hguar := h.grown.mono (q := (·.socket = c.socket)) fun _ h ↦ congrArg Connection.socket h
  obtain ⟨hhistory, hleases, hzero, hpos⟩ := t.state.reserve_spec c now i
  have hbound := hinv.bound
  have hmem (x : Lease cfg) (hx : x ∈ (t.state.reserve c now i).2.leases) :
      x ∈ t.state.leases ∨ x = .measured c now (t.state.reserve c now i).1 := by
    rw [hleases] at hx
    exact (mem_append.mp hx).imp_right mem_singleton.mp
  have haccepted : AcceptedBy (fun _ ↦ False) t.state (t.state.reserve c now i).2 := by
    intro x hx a ha
    refine (hmem x hx).imp_right ?_
    rintro rfl
    cases ha
  by_cases hr : (t.state.reserve c now i).1 = 0
  · obtain ⟨hover, huntil⟩ := hzero hr
    have hnone (c' : Connection cfg) (now' : Nat) : ¬ Underway t.state c' now' := by
      intro hunderway
      have hheld := hinv.held c' now' hunderway
      obtain ⟨⟨x, hx, hc'⟩, -, hclosed⟩ := hunderway
      have := htimely x hx (c', now') hc' hclosed
      simp only at this hclock
      omega
    have hinitiation : (Lease.measured c now 0).initiation = some (c, now) := if_pos hinitiate
    have honly (c' : Connection cfg) (now' : Nat)
        (hunderway : Underway (t.state.reserve c now i).2 c' now') : c' = c ∧ now' = now := by
      obtain ⟨⟨x, hx, hc'⟩, hreleased, hclosed⟩ := hunderway
      rcases hmem x hx with hx | rfl
      · exact absurd ⟨⟨x, hx, hc'⟩, fun h ↦ hreleased (hguar.mem_leases h),
          fun h ↦ hclosed (hguar.mem_history h)⟩ (hnone c' now')
      · rw [hr, hinitiation] at hc'
        exact Prod.mk.inj (Option.some.inj hc'.symm)
    have hspaced (x : Lease cfg) (hx : x ∈ t.state.leases) (a : Connection cfg × Nat)
        (ha : a ∈ x.acceptance) : a.2 + leaseSeconds ≤ i.now := by
      simp only at hclock
      have := hinv.spaced x hx a ha
      omega
    refine ⟨hinv.kept hguar haccepted (fun _ _ hsent ↦ .inl (hhistory ▸ hsent))
      (fun c₁ c₂ n₁ n₂ h₁ h₂ ↦ (honly c₁ n₁ h₁).1.trans (honly c₂ n₂ h₂).1.symm) ?_
      (fun c' now' h ↦ by rw [(honly c' now' h).2, huntil]) fun x hx a ha ↦
        .inr (hspaced x hx a ha), ⟨hguar, haccepted.mono⟩,
      fun _ ↦ ⟨now, ⟨⟨.measured c now 0, ?_, hinitiation⟩, ?_, ?_⟩, fun x hx a ha ↦
        hspaced x ((haccepted x hx a ha).resolve_right id) a ha⟩⟩
    · simp only at hclock ⊢
      omega
    · rw [hleases, hr]
      simp
    · rw [hleases]
      intro h
      rcases mem_append.mp h with h | h
      · exact huntried.1 _ h rfl
      · simp at h
    · rw [hhistory]
      exact huntried.2
  · refine ⟨hinv.step hclock hguar (fun x hx a ha ↦ ?_) haccepted (hpos hr).ge ?_
      fun c' hc' hsent ↦ .inl (hhistory ▸ hsent), ⟨hguar, haccepted.mono⟩, fun h ↦ absurd h hr⟩
    · refine (hmem x hx).resolve_right ?_
      rintro rfl
      rw [Lease.initiation.eq_def] at ha
      split at ha
      · rename_i heq
        exact hr (Lease.measured.inj heq).2.2
      · cases ha
    · have := hpos hr
      simp only at hclock ⊢
      omega

/-- `release_initiation`: the lease is given up by the one that holds it. -/
theorem releaseInitiation_excludes (hs : Holding c now s) :
    ((releaseInitiation c).clocked Env.now).Ok (initiationDiscipline cfg) c.socket
      (fun _ _ ↦ True) s := by
  refine ok_clocked_atomic (holding_stable now) (fun _ ↦ Discipline.stable_true _ _) hs ?_
  rintro i t u ⟨hunderway, hspaced⟩ hinv rfl ⟨hclock, -, -⟩
  have h : Section c (· = .release) i t.state (t.state.release c i.ok) := .release _ rfl
  have hguar := h.grown.mono (q := (·.socket = c.socket)) fun _ h ↦ congrArg Connection.socket h
  have hold (x : Lease cfg) (hx : x ∈ (t.state.release c i.ok).leases) :
      x ∈ t.state.leases ∨ x = .released c :=
    (mem_append.mp hx).imp_right mem_singleton.mp
  have haccepted : AcceptedBy (fun _ ↦ False) t.state (t.state.release c i.ok) := by
    intro x hx a ha
    refine (hold x hx).imp_right ?_
    rintro rfl
    cases ha
  -- the only initiation under way was this one
  have hnone (c' : Connection cfg) (now' : Nat) :
      ¬ Underway (t.state.release c i.ok) c' now' := by
    intro h'
    have hbefore : Underway t.state c' now' := by
      refine h'.of_grown hguar fun x hx hc' ↦ (hold x hx).resolve_right ?_
      rintro rfl
      cases hc'
    obtain rfl := hinv.exclusive c c' now now' hunderway hbefore
    exact h'.2.1 (mem_append_right _ (mem_singleton_self _))
  refine ⟨hinv.kept (t := ⟨i.now, t.state.release c i.ok⟩) hguar haccepted (fun _ _ ↦ .inl)
    (fun c₁ _ n₁ _ h₁ _ ↦ absurd h₁ (hnone c₁ n₁)) (Nat.zero_le _)
    (fun c' now' h' ↦ absurd h' (hnone c' now')) fun x hx a ha ↦ .inr ?_,
    ⟨hguar, haccepted.mono⟩, trivial⟩
  exact Nat.le_trans (hspaced x hx a ha) hclock

/-- `mark_activity`: the initiation is accepted. -/
theorem markActivity_excludes (hinitiate : c.isInitiate) (hs : Holding c now s) :
    ((markActivity c).clocked Env.now).Ok (initiationDiscipline cfg) c.socket
      (fun _ ↦ Accepted c) s := by
  refine ok_clocked_bind (R := fun _ ↦ Accepted c) ?_ fun _ t ht ↦ activityMark_excludes ht
  refine ok_clocked_atomic (holding_stable now) (fun _ ↦ accepted_stable) hs ?_
  rintro i t u ⟨hunderway, hspaced⟩ hinv rfl ⟨hclock, -, -⟩
  have h : Section c (· = .mark) i t.state (t.state.mark c i.now) := .mark _ rfl
  have hguar := h.grown.mono (q := (·.socket = c.socket)) fun _ h ↦ congrArg Connection.socket h
  have hacceptance : (Lease.marked c i.now).acceptance = some (c, i.now) := if_pos hinitiate
  have hbound := hinv.bound
  have hold (x : Lease cfg) (hx : x ∈ (t.state.mark c i.now).leases) :
      x ∈ t.state.leases ∨ x = .marked c i.now :=
    (mem_append.mp hx).imp_right mem_singleton.mp
  have hbefore (c' : Connection cfg) (now' : Nat) (h' : Underway (t.state.mark c i.now) c' now') :
      Underway t.state c' now' := by
    refine h'.of_grown hguar fun x hx hc' ↦ (hold x hx).resolve_right ?_
    rintro rfl
    cases hc'
  simp only at hclock
  refine ⟨⟨⟨fun c₁ c₂ n₁ n₂ h₁ h₂ ↦ ?_, fun x hx x' hx' a ha a' ha' hne ↦ ?_,
    fun c' hc' hsent ↦ ?_⟩,
    Nat.le_refl _, fun c' now' h' ↦ ?_, fun x hx a ha ↦ ?_⟩, ⟨hguar, fun x hx a ha ↦ ?_⟩,
    .marked c i.now, mem_append_right _ (mem_singleton_self _), i.now, hacceptance⟩
  · exact hinv.exclusive c₁ c₂ n₁ n₂ (hbefore c₁ n₁ h₁) (hbefore c₂ n₂ h₂)
  · rcases hold x hx with hx | rfl
    · rcases hold x' hx' with hx' | rfl
      · exact hinv.apart x hx x' hx' a ha a' ha' hne
      · obtain rfl := Option.some.inj (hacceptance.symm.trans ha')
        exact .inl (Nat.le_trans (hspaced x hx a ha) hclock)
    · obtain rfl := Option.some.inj (hacceptance.symm.trans ha)
      rcases hold x' hx' with hx' | rfl
      · exact .inr (Nat.le_trans (hspaced x' hx' a' ha') hclock)
      · obtain rfl := Option.some.inj (hacceptance.symm.trans ha')
        exact absurd rfl hne
  · obtain ⟨x, hx, h⟩ := hinv.answered c' hc' hsent
    exact ⟨x, hguar.mem_leases hx, h⟩
  · have := hinv.held c' now' (hbefore c' now' h')
    simp only [Hub.mark]
    omega
  · rcases hold x hx with hx | rfl
    · exact .inr (Nat.le_trans (hspaced x hx a ha) hclock)
    · obtain rfl := Option.some.inj (hacceptance.symm.trans ha)
      exact .inl (Nat.le_refl _)
  · refine (hold x hx).imp_right ?_
    rintro rfl
    obtain rfl := Option.some.inj (hacceptance.symm.trans ha)
    exact ⟨rfl, now, hunderway⟩

/-- `INITIATE`. -/
theorem handleConnection_initiates (hinitiate : c.isInitiate) (hs : Untried c s) :
    ((handleConnection c).clocked Env.now).Ok (initiationDiscipline cfg) c.socket
      (fun _ _ ↦ True) s := by
  have huntried {α : Type} {m : Handler cfg α} (hm : m.Takes (Section c Plain)) :
      Handles (initiationDiscipline cfg) c m (Untried c) fun _ ↦ Untried c := fun s hs ↦
    plain_excludes untried_stable hm (fun _ _ _ _ h hs ↦ hs.plain h) hs
  have hholding {α : Type} {m : Handler cfg α} (hm : m.Takes (Section c Plain)) :
      Handles (initiationDiscipline cfg) c m (fun s ↦ ∃ now, Holding c now s)
        fun _ s ↦ ∃ now, Holding c now s := by
    rintro s ⟨now, hs⟩
    exact (plain_excludes (holding_stable now) hm (fun _ _ _ hclock h hs ↦ hs.plain hclock h)
      hs).mono fun _ _ h ↦ ⟨now, h⟩
  have hsteps : Messaging (initiationDiscipline cfg) c (Untried c)
      (fun _ s ↦ ∃ now, Holding c now s) (Accepted c) :=
    { markSeen := huntried markSeen_takes
      checkTurn := huntried (checkTurn_takes (by decide))
      reserve := fun _ s hs ↦ reserveInitiation_excludes hinitiate hs
      relay := fun _ message ↦
        hholding (relayMessage_takes (by decide) (by decide) (by decide) message)
      record := fun _ _ _ hevent ↦
        hholding (transcriptAppend_takes (hevent.symm ▸ by decide) _ _ _ _)
      mark := fun _ s ⟨_, hs⟩ ↦ markActivity_excludes hinitiate hs
      release := fun s ⟨_, hs⟩ ↦ releaseInitiation_excludes hs
      accept := fun s hs ↦ send_excludes fun _ ↦ hs
      refuse := fun line hline s _ ↦ send_excludes fun h ↦ absurd h hline
      close := fun s _ ↦ ?_ }
  · exact hsteps.handleConnection (.inl hinitiate) s hs
  · refine (networkClose_takes (K := (· = .close)) rfl).clocked.ok
      ((initiationDiscipline cfg).stable_true _) ?_ trivial
    rintro i s t - hinv hallowed ⟨hnow, h⟩
    have hstep := hinv.section hallowed hnow h nofun (fun _ ↦ nofun) (fun _ ↦ nofun) (fun _ ↦ nofun)
      fun _ ↦ nofun
    exact ⟨hstep.1, hstep.2, trivial⟩

end

/-! ## The result -/

theorem initiationInv_boot (restored : Name) (activity : Option Int) (logTime : Log → Nat) :
    InitiationInv ⟨0, Hub.boot cfg restored activity logTime⟩ := by
  have hnone (c : Connection cfg) (now : Nat) :
      ¬ Underway (Hub.boot cfg restored activity logTime) c now := by
    rintro ⟨⟨x, hx, -⟩, -⟩
    cases hx
  exact ⟨⟨fun c _ now _ h _ ↦ absurd h (hnone c now), nofun, nofun⟩, Nat.zero_le _,
    fun c now h ↦ absurd h (hnone c now), nofun⟩

/-- **One initiation at a time.** -/
theorem one_initiation (restored : Name) (activity : Option Int) (logTime : Log → Nat)
    (acts : List (Act (Call cfg) Env))
    (hacts : System.Along timedThread (Timely (· < leaseSeconds))
      ⟨⟨0, Hub.boot cfg restored activity logTime⟩, []⟩ acts) :
    OneInitiation ((Hub.boot cfg restored activity logTime).after acts) := by
  have hinv : InitiationInv ((Hub.boot cfg restored activity logTime).timed acts) := by
    refine (initiationDiscipline cfg).run_inv (initiationInv_boot restored activity logTime)
      (fun k call ↦ ?_) hacts
    by_cases hinitiate : (⟨k, call.1, call.2⟩ : Connection cfg).isInitiate
    · exact handleConnection_initiates hinitiate ⟨nofun, nofun⟩
    · exact handleConnection_excludes (by simpa using hinitiate)
  rw [← Hub.timed_state]
  exact hinv.toOneInitiation

namespace small

/-- A handler takes some sections 300 seconds after noon. -/
def goesOnLater (k sections : Nat) : List (Act (Call small) Env) :=
  List.replicate sections (.advance k { noon with now := 43500 })

/-- Bob drops by; carol begins a conversation with him, and alice cannot begin one 299 seconds
later. -/
def aliceIsLate : List (Act (Call small) Env) :=
  [connects bob none, connects carol (some "INITIATE bob, hello")] ++ goesOn 0 2 ++ goesOn 1 20 ++
    [connects alice (some "INITIATE bob, hello")] ++
    List.replicate 20 (.advance 2 { noon with now := 43499 })

/-- Carol's initiation. -/
def carols (message : String) : Connection small := ⟨0, carol, some (Bytes.ofAscii message)⟩

/-- Bob's initiation. -/
def bobs : Connection small := ⟨1, bob, some (Bytes.ofAscii "INITIATE alice, hello")⟩

/-- Carol begins a conversation with herself and gives up, and before she is told so bob takes the
lease. -/
def carolIsNotDone : List (Act (Call small) Env) :=
  [connects carol (some "INITIATE carol, hello"), connects bob (some "INITIATE alice, hello")] ++
    goesOn 0 5 ++ goesOn 1 4

/-- Carol begins a conversation and takes 300 seconds over it. -/
def carolIsSlow : List (Act (Call small) Env) :=
  [connects carol (some "INITIATE bob, hello"), connects bob (some "INITIATE alice, hello")] ++
    goesOn 0 4 ++ goesOnLater 1 4

end small

theorem one_initiation_alice :
    System.Along timedThread (Timely (· < leaseSeconds)) ⟨⟨0, small.start⟩, []⟩ small.aliceIsLate ∧
      OneInitiation (small.start.after small.aliceIsLate) :=
  ⟨by decide +kernel, one_initiation _ _ _ _ (by decide +kernel)⟩

/-- **Two initiations that have taken the lease and are not done.**  Carol's has given it up again
but not answered yet; or it is still at work when the 300 seconds have passed. -/
theorem initiations_overlap :
    (System.Along timedThread (Timely (· ≤ leaseSeconds)) ⟨⟨0, small.start⟩, []⟩
        small.carolIsNotDone ∧
      (∃ x ∈ (small.start.after small.carolIsNotDone).leases,
        x.initiation = some (small.carols "INITIATE carol, hello", 43200)) ∧
      .closed (small.carols "INITIATE carol, hello") ∉
        (small.start.after small.carolIsNotDone).history ∧
      Underway (small.start.after small.carolIsNotDone) small.bobs 43200) ∧
    System.Along timedThread (Timely (· ≤ leaseSeconds)) ⟨⟨0, small.start⟩, []⟩
        small.carolIsSlow ∧
      Underway (small.start.after small.carolIsSlow) (small.carols "INITIATE bob, hello") 43200 ∧
      Underway (small.start.after small.carolIsSlow) small.bobs 43500 := by
  refine ⟨⟨?_, ?_, ?_, ?_⟩, ?_, ?_, ?_⟩ <;> decide +kernel

end Noobia.Council
