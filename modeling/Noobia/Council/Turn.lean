import Noobia.Council.Effect

/-!
# Who may speak

A `SAY` is taken on if its sender has the turn, or nobody has, and it passes the turn on.  One turn
should therefore admit one message.  But a handler looks at the turn in one critical section and
writes it in another, with a delivery to every AI in between, and it does not look again: two
handlers that look during the same turn both go ahead, and the second of them takes the turn away
from whoever the first has given it to.  `double_say_accepted` is such a run.

`turn_kept` says that this is the only way for it to go wrong.  In every interleaving in which no
handler writes the turn while a `SAY` of another is between its look at the turn and its own write,
every accepted `SAY` ended a turn that its sender held or that was free, and no two of them were
admitted by the same turn.
-/

namespace Noobia.Council

open List Bytes

open Routine

variable {cfg : Config}

/-! ## The property and the condition -/

/-- What is to hold of the history of a hub. -/
structure TurnKept (history : List (Event cfg)) : Prop where
  /-- An accepted `SAY` wrote the turn while its sender held it or it was free. -/
  held : ∀ c : Connection cfg, c.isSay → .sent c accepted ∈ history →
    (∃ turn holder, .moved c turn holder ∈ history) ∧
    ∀ turn holder, .moved c turn holder ∈ history → holder.isEmpty ∨ holder = c.name
  /-- One turn admits one accepted `SAY`. -/
  once : ∀ (c c' : Connection cfg) (turn : Nat) (ok ok' : Bool), c.isSay → c'.isSay →
    .sent c accepted ∈ history → .sent c' accepted ∈ history →
    .checked c turn ok ∈ history → .checked c' turn ok' ∈ history → c = c'

/-- The handler of `c` has neither written the turn nor answered. -/
def Undecided (history : List (Event cfg)) (c : Connection cfg) : Prop :=
  ∀ e ∈ history, e.connection = c → e.kind ≠ .move ∧ e.kind ≠ .reply
  deriving Decidable

/-- The `SAY`s whose sender has been found to have the turn and that are still on their way. -/
def pending (history : List (Event cfg)) : List (Connection cfg) :=
  history.filterMap fun
    | .checked c _ true => if c.isSay ∧ Undecided history c then some c else none
    | _ => none

/-- Thread `k` does not write the turn while a `SAY` of another is on its way. -/
def Undisturbed (k : Nat) (s t : Hub cfg) : Prop :=
  t.turn ≠ s.turn → ∀ c ∈ pending s.history, c.socket = k
  deriving Decidable

theorem mem_pending {history : List (Event cfg)} {c : Connection cfg} :
    c ∈ pending history ↔
      (∃ turn, .checked c turn true ∈ history) ∧ c.isSay ∧ Undecided history c := by
  rw [pending, mem_filterMap]
  constructor
  · rintro ⟨e, he, hc⟩
    split at hc
    · rename_i c' turn
      split at hc
      · rename_i hcond
        obtain rfl := Option.some.inj hc
        exact ⟨⟨turn, he⟩, hcond⟩
      · cases hc
    · cases hc
  · rintro ⟨⟨turn, hturn⟩, hcond⟩
    exact ⟨_, hturn, if_pos hcond⟩

/-! ## The discipline -/

/-- The handler of `c` has written the turn, and did so in the turn it had looked at and while its
caller held it or it was free. -/
def Passed (history : List (Event cfg)) (c : Connection cfg) : Prop :=
  (∃ turn holder, .moved c turn holder ∈ history) ∧
  (∀ turn holder, .moved c turn holder ∈ history → holder.isEmpty ∨ holder = c.name) ∧
  ∀ turn ok, .checked c turn ok ∈ history → ∃ holder, .moved c turn holder ∈ history

/-- What holds of the hub throughout. -/
structure TurnInv (s : Hub cfg) : Prop where
  past : ∀ c turn holder, .moved c turn holder ∈ s.history → turn < s.turn
  unique : ∀ c c' turn holder holder', .moved c turn holder ∈ s.history →
    .moved c' turn holder' ∈ s.history → c = c'
  said : ∀ c : Connection cfg, c.isSay → .sent c accepted ∈ s.history → Passed s.history c

/-- What a handler guarantees: it adds notes of its own, and whoever may speak changes only with the
number of the turn. -/
def TurnGuar (k : Nat) (s t : Hub cfg) : Prop :=
  (∃ new, t.history = s.history ++ new ∧ ∀ e ∈ new, e.connection.socket = k) ∧
    (t.turn = s.turn → t.arbitration = s.arbitration)

/-- Nothing is noted in the name of thread `k`, and the turn stays as it is while `k` is among those
who are on their way. -/
def TurnStays (onWay : List (Event cfg) → List (Connection cfg)) (k : Nat) (s t : Hub cfg) : Prop :=
  (∃ new, t.history = s.history ++ new ∧ ∀ e ∈ new, e.connection.socket ≠ k) ∧
    ∀ c ∈ onWay s.history, c.socket = k → t.turn = s.turn ∧ t.arbitration = s.arbitration

section

variable {onWay : List (Event cfg) → List (Connection cfg)} {j k : Nat} {s t u : Hub cfg}

theorem TurnStays.refl (k : Nat) (s : Hub cfg) : TurnStays onWay k s s :=
  ⟨⟨[], (append_nil _).symm, by simp⟩, fun _ _ _ ↦ ⟨rfl, rfl⟩⟩

theorem TurnStays.trans (honWay : ∀ history new c, c ∈ onWay history →
      (∀ e ∈ new, e.connection.socket ≠ c.socket) → c ∈ onWay (history ++ new))
    (hst : TurnStays onWay k s t) (htu : TurnStays onWay k t u) : TurnStays onWay k s u := by
  obtain ⟨⟨new, ht, hnew⟩, hst⟩ := hst
  obtain ⟨⟨new', hu, hnew'⟩, htu⟩ := htu
  refine ⟨⟨new ++ new', by rw [hu, ht, append_assoc], fun e he ↦ ?_⟩, fun c hc hk ↦ ?_⟩
  · exact (mem_append.mp he).elim (hnew e) (hnew' e)
  obtain ⟨hturn, harbitration⟩ := hst c hc hk
  obtain ⟨hturn', harbitration'⟩ := htu c (ht ▸ honWay _ _ c hc fun e he ↦ hk ▸ hnew e he) hk
  exact ⟨hturn'.trans hturn, harbitration'.trans harbitration⟩

theorem TurnGuar.stays (h : TurnGuar k s t) (hne : j ≠ k)
    (hallowed : t.turn ≠ s.turn → ∀ c ∈ onWay s.history, c.socket = k) :
    TurnStays onWay j s t := by
  obtain ⟨⟨new, ht, hnew⟩, harbitration⟩ := h
  refine ⟨⟨new, ht, fun e he ↦ hnew e he ▸ hne.symm⟩, fun c hc hj ↦ ?_⟩
  have hturn : t.turn = s.turn := by
    by_contra hturn
    exact hne (hj.symm.trans (hallowed hturn c hc))
  exact ⟨hturn, harbitration hturn⟩

end

/-- What a handler relies on: nothing is noted in its name, and the turn stays as it is while its
own `SAY` is on its way. -/
def TurnRely : Nat → Hub cfg → Hub cfg → Prop := TurnStays pending

/-- What others note does not take a `SAY` off its way. -/
theorem mem_pending_append {history new : List (Event cfg)} {c : Connection cfg}
    (hc : c ∈ pending history) (hnew : ∀ e ∈ new, e.connection.socket ≠ c.socket) :
    c ∈ pending (history ++ new) := by
  obtain ⟨⟨turn, hturn⟩, hsay, hundecided⟩ := mem_pending.mp hc
  refine mem_pending.mpr ⟨⟨turn, mem_append_left _ hturn⟩, hsay, fun e he hec ↦ ?_⟩
  rcases mem_append.mp he with he | he
  · exact hundecided e he hec
  · exact absurd (congrArg Connection.socket hec) (hnew e he)

/-- The discipline under which turns are kept. -/
def turnDiscipline (cfg : Config) : Discipline (Hub cfg) where
  Inv := TurnInv
  Allowed := Undisturbed
  Guar := TurnGuar
  Rely := TurnRely
  rely_refl := .refl
  rely_trans := .trans fun _ _ _ ↦ mem_pending_append
  spread hne _ hallowed hguar := hguar.stays hne hallowed

/-! ## What effects mean for it -/

section

variable {c : Connection cfg} {K : Kind → Prop} {s t : Hub cfg}

theorem Effect.turnGuar (h : Effect c K s t) : TurnGuar c.socket s t := by
  obtain ⟨new, hhistory, hown, hmove, -⟩ := h
  refine ⟨⟨new, hhistory, fun e he ↦ congrArg _ (hown e he).1⟩, fun hturn ↦ ?_⟩
  rcases hmove with hmove | hmove
  · exact hmove.2.1
  · omega

/-- A note of a turn that a section adds is of the turn it found. -/
theorem Effect.moved (h : Effect c K s t) {c' : Connection cfg} {turn : Nat} {holder : Name}
    (hmem : .moved c' turn holder ∈ t.history) :
    .moved c' turn holder ∈ s.history ∨
      c' = c ∧ turn = s.turn ∧ holder = s.arbitration.currentSpeaker ∧ t.turn = s.turn + 1 := by
  obtain ⟨new, hhistory, hown, hmove, -⟩ := h
  rw [hhistory, mem_append] at hmem
  refine hmem.imp_right fun hnew ↦ ?_
  rcases hmove with hmove | ⟨hfilter, hturn⟩
  · exact absurd rfl (hmove.1 _ hnew)
  have := hfilter ▸ mem_filter.mpr ⟨hnew, by simp [Event.kind]⟩
  rw [mem_singleton, Event.moved.injEq] at this
  exact ⟨this.1, this.2.1, this.2.2, hturn⟩

theorem Effect.turn_le (h : Effect c K s t) : s.turn ≤ t.turn := by
  obtain ⟨new, -, -, hmove | hmove, -⟩ := h
  · exact hmove.2.2.ge
  · omega

/-- What the notes of a connection say goes on holding while nothing is noted about its turn. -/
theorem Passed.append {history new : List (Event cfg)} (h : Passed history c)
    (hnew : ∀ e ∈ new, e.connection = c → e.kind ≠ .check ∧ e.kind ≠ .move) :
    Passed (history ++ new) c := by
  obtain ⟨⟨turn, holder, hmoved⟩, hheld, hchecked⟩ := h
  refine ⟨⟨turn, holder, mem_append_left _ hmoved⟩, fun turn holder hmem ↦ ?_,
    fun turn ok hmem ↦ ?_⟩
  · rcases mem_append.mp hmem with hmem | hmem
    · exact hheld turn holder hmem
    · exact absurd rfl (hnew _ hmem rfl).2
  rcases mem_append.mp hmem with hmem | hmem
  · obtain ⟨holder, hholder⟩ := hchecked turn ok hmem
    exact ⟨holder, mem_append_left _ hholder⟩
  · exact absurd rfl (hnew _ hmem rfl).1

/-- A section keeps the invariant if it does not accept a `SAY` that has not passed the turn on. -/
theorem TurnInv.effect (hs : TurnInv s) (h : Effect c K s t)
    (hsaid : c.isSay → .sent c accepted ∈ t.history → Passed t.history c) : TurnInv t := by
  refine ⟨fun c' turn holder hmem ↦ ?_, fun c₁ c₂ turn holder₁ holder₂ h₁ h₂ ↦ ?_,
    fun c' hsay hmem ↦ ?_⟩
  · rcases h.moved hmem with hmem | ⟨-, hturn, -, ht⟩
    · exact (hs.past c' turn holder hmem).trans_le h.turn_le
    · omega
  · rcases h.moved h₁ with h₁ | ⟨rfl, hturn₁, -, -⟩ <;>
      rcases h.moved h₂ with h₂ | ⟨rfl, hturn₂, -, -⟩
    · exact hs.unique c₁ c₂ turn holder₁ holder₂ h₁ h₂
    · exact absurd (hs.past _ _ _ h₁) (by omega)
    · exact absurd (hs.past _ _ _ h₂) (by omega)
    · rfl
  · rcases eq_or_ne c' c with rfl | hne
    · exact hsaid hsay hmem
    obtain ⟨new, hhistory, hown, -⟩ := h
    rw [hhistory] at hmem ⊢
    have hold : .sent c' accepted ∈ s.history :=
      (mem_append.mp hmem).resolve_right fun hnew ↦ hne (hown _ hnew).1
    exact (hs.said c' hsay hold).append fun e he hec ↦ absurd (hec.symm.trans (hown e he).1) hne

/-- A section that neither looks at the turn nor writes it nor accepts keeps the invariant. -/
theorem TurnInv.quiet (hs : TurnInv s) (h : Effect c K s t) (hcheck : ¬ K .check)
    (hmove : ¬ K .move) (hsent : .sent c accepted ∈ t.history → .sent c accepted ∈ s.history) :
    TurnInv t := by
  refine hs.effect h fun hsay hmem ↦ ?_
  obtain ⟨new, hhistory, hown, -⟩ := h
  rw [hhistory]
  refine (hs.said c hsay (hsent hmem)).append fun e he _ ↦ ⟨fun hkind ↦ ?_, fun hkind ↦ ?_⟩
  · exact hcheck (hkind ▸ (hown e he).2)
  · exact hmove (hkind ▸ (hown e he).2)

end

/-! ## The handler of a `SAY` -/

section

variable {c : Connection cfg} {s : Hub cfg}

/-- The kinds of notes that say nothing about turns or answers. -/
def Quiet (k : Kind) : Prop := k = .record ∨ k = .exchange ∨ k = .close

/-- Nothing has been noted yet. -/
def Fresh (c : Connection cfg) (s : Hub cfg) : Prop :=
  ∀ e ∈ s.history, e.connection.socket ≠ c.socket

/-- The caller has been found to have the turn and still has it. -/
structure Window (c : Connection cfg) (s : Hub cfg) : Prop where
  undecided : Undecided s.history c
  checked : .checked c s.turn true ∈ s.history
  only : ∀ turn ok, .checked c turn ok ∈ s.history → turn = s.turn
  speaks : s.arbitration.canSpeak c.name = true

theorem fresh_stable : (turnDiscipline cfg).Stable c.socket (Fresh c) := by
  rintro s t hs ⟨⟨new, ht, hnew⟩, -⟩ e he
  rw [ht] at he
  exact (mem_append.mp he).elim (hs e) (hnew e)

theorem passed_stable : (turnDiscipline cfg).Stable c.socket fun s ↦ Passed s.history c := by
  rintro s t hs ⟨⟨new, ht, hnew⟩, -⟩
  rw [ht]
  exact hs.append fun e he hec ↦ absurd (congrArg _ hec) (hnew e he)

theorem window_stable (hsay : c.isSay) : (turnDiscipline cfg).Stable c.socket (Window c) := by
  rintro s t hs ⟨⟨new, ht, hnew⟩, hrely⟩
  have hpending := mem_pending.mpr ⟨⟨_, hs.checked⟩, hsay, hs.undecided⟩
  obtain ⟨hturn, harbitration⟩ := hrely c hpending rfl
  obtain ⟨-, -, hundecided⟩ := mem_pending.mp (mem_pending_append hpending hnew)
  refine ⟨ht ▸ hundecided, ?_, fun turn ok hmem ↦ ?_, harbitration ▸ hs.speaks⟩
  · rw [ht, hturn]
    exact mem_append_left _ hs.checked
  rw [ht] at hmem
  rw [hturn]
  refine hs.only turn ok ((mem_append.mp hmem).resolve_right fun hmem ↦ ?_)
  exact hnew _ hmem rfl

variable {α : Type} {m : Handler cfg α}

/-- A routine that only makes quiet notes keeps what such notes keep. -/
theorem quiet_ok {K : Kind → Prop} (hm : m.Takes (Section c fun k ↦ k.isNoted = false ∨ K k))
    (hK : ∀ k, K k → Quiet k) {P : Hub cfg → Prop} (hP : (turnDiscipline cfg).Stable c.socket P)
    (hkeep : ∀ s t, P s → Effect c K s t → P t) (hs : P s) :
    m.Ok (turnDiscipline cfg) c.socket (fun _ ↦ P) s := by
  have hsteps : m.Steps (Effect c K) :=
    effect_of_takes hm fun k hk h ↦ h.resolve_left (by simp [hk])
  refine hsteps.ok hP (fun s t hs hinv _ h ↦ ⟨?_, h.turnGuar, hkeep s t hs h⟩) hs
  have hnot (k : Kind) (hk : ¬ Quiet k) : ¬ K k := fun h ↦ hk (hK k h)
  refine TurnInv.quiet hinv h (hnot _ (by simp [Quiet])) (hnot _ (by simp [Quiet])) fun hmem ↦ ?_
  obtain ⟨new, hhistory, hown, -⟩ := h
  rw [hhistory] at hmem
  refine (mem_append.mp hmem).resolve_right fun hnew ↦ ?_
  exact hnot .reply (by simp [Quiet]) (hown _ hnew).2

theorem window_quiet {t : Hub cfg} (hs : Window c s) (h : Effect c Quiet s t) : Window c t := by
  obtain ⟨harbitration, hturn⟩ := h.turn (by simp [Quiet])
  obtain ⟨new, hhistory, hown, -⟩ := h
  refine ⟨fun e he hec ↦ ?_, ?_, fun turn ok hmem ↦ ?_, harbitration ▸ hs.speaks⟩
  · rw [hhistory] at he
    rcases mem_append.mp he with he | he
    · exact hs.undecided e he hec
    · rcases (hown e he).2 with hkind | hkind | hkind <;> rw [hkind] <;> exact ⟨nofun, nofun⟩
  · rw [hhistory, hturn]
    exact mem_append_left _ hs.checked
  · rw [hhistory] at hmem
    rw [hturn]
    refine hs.only turn ok ((mem_append.mp hmem).resolve_right fun hmem ↦ ?_)
    simpa [Quiet, Event.kind] using (hown _ hmem).2

theorem passed_quiet {t : Hub cfg} (hs : Passed s.history c) (h : Effect c Quiet s t) :
    Passed t.history c := by
  obtain ⟨new, hhistory, hown, -⟩ := h
  rw [hhistory]
  refine hs.append fun e he _ ↦ ?_
  rcases (hown e he).2 with hkind | hkind | hkind <;> rw [hkind] <;> exact ⟨nofun, nofun⟩

theorem window_quiet_ok (hsay : c.isSay)
    (hm : m.Takes (Section c fun k ↦ k.isNoted = false ∨ Quiet k)) (hs : Window c s) :
    m.Ok (turnDiscipline cfg) c.socket (fun _ ↦ Window c) s :=
  quiet_ok hm (fun _ ↦ id) (window_stable hsay) (fun _ _ ↦ window_quiet) hs

theorem passed_quiet_ok (hm : m.Takes (Section c fun k ↦ k.isNoted = false ∨ Quiet k))
    (hs : Passed s.history c) :
    m.Ok (turnDiscipline cfg) c.socket (fun _ s ↦ Passed s.history c) s :=
  quiet_ok hm (fun _ ↦ id) passed_stable (fun _ _ ↦ passed_quiet) hs

theorem reply_ok {line : String} (hline : ofAscii line ≠ accepted) :
    (reply c line).Ok (turnDiscipline cfg) c.socket (fun _ _ ↦ True) s := by
  refine ok_atomic (Discipline.stable_true _ _) (fun _ ↦ Discipline.stable_true _ _) trivial
    fun i t _ hinv _ ↦ ?_
  have h : Effect c (· = .reply) t (t.note (.sent c (ofAscii line))) :=
    effect_note (.sent c (ofAscii line)) rfl rfl nofun rfl rfl rfl rfl
  refine ⟨TurnInv.quiet hinv h nofun nofun fun hmem ↦ ?_, h.turnGuar, trivial⟩
  refine (mem_append.mp hmem).resolve_right fun hnew ↦ hline ?_
  rw [mem_singleton, Event.sent.injEq] at hnew
  exact hnew.2.symm

/-- The acceptance of a `SAY` that has passed the turn on. -/
theorem send_accepted_ok (hs : Passed s.history c) :
    (send c accepted).Ok (turnDiscipline cfg) c.socket (fun _ _ ↦ True) s := by
  refine ok_atomic passed_stable (fun _ ↦ Discipline.stable_true _ _) hs fun i t ht hinv _ ↦ ?_
  have h : Effect c (· = .reply) t (t.note (.sent c accepted)) :=
    effect_note (.sent c accepted) rfl rfl nofun rfl rfl rfl rfl
  refine ⟨TurnInv.effect hinv h fun _ _ ↦ ht.append fun e he _ ↦ ?_, h.turnGuar, trivial⟩
  obtain rfl := mem_singleton.mp he
  exact ⟨nofun, nofun⟩

theorem checkTurn_ok (hsay : c.isSay) (hs : Fresh c s) :
    (checkTurn c).Ok (turnDiscipline cfg) c.socket (fun hasTurn s ↦ hasTurn = true → Window c s)
      s := by
  refine ok_atomic fresh_stable (fun hasTurn ↦ ?_) hs fun i t ht hinv _ ↦ ?_
  · exact fun s t hs hrely h ↦ window_stable hsay s t (hs h) hrely
  dsimp only
  have h : Effect c (· = .check) t (t.note (.checked c t.turn (t.arbitration.canSpeak c.name))) :=
    effect_note (.checked c t.turn (t.arbitration.canSpeak c.name)) rfl rfl nofun rfl rfl rfl rfl
  refine ⟨TurnInv.effect hinv h fun _ hmem ↦ ?_, h.turnGuar, fun hspeaks ↦ ⟨fun e he hec ↦ ?_, ?_,
    fun turn ok hmem ↦ ?_, hspeaks⟩⟩
  · rcases mem_append.mp hmem with hmem | hmem
    · exact absurd rfl (ht _ hmem)
    · cases mem_singleton.mp hmem
  · rcases mem_append.mp he with he | he
    · exact absurd (congrArg _ hec) (ht e he)
    · obtain rfl := mem_singleton.mp he
      exact ⟨nofun, nofun⟩
  · rw [hspeaks]
    exact mem_append_right _ (mem_singleton_self _)
  · rcases mem_append.mp hmem with hmem | hmem
    · exact absurd rfl (ht _ hmem)
    · rw [mem_singleton, Event.checked.injEq] at hmem
      exact hmem.2.1

/-- To write the turn from within the window is to pass it on. -/
theorem Window.turnTo (hs : Window c s) (arbitration : Arbitration) :
    Passed (s.turnTo c arbitration).history c := by
  have hspeaks := hs.speaks
  rw [Arbitration.canSpeak, Bool.or_eq_true, decide_eq_true_eq] at hspeaks
  have hnew : Event.moved c s.turn s.arbitration.currentSpeaker ∈
      (s.turnTo c arbitration).history :=
    mem_append_right _ (mem_singleton_self _)
  refine ⟨⟨_, _, hnew⟩, fun turn holder hmem ↦ ?_, fun turn ok hmem ↦ ?_⟩
  · rcases mem_append.mp hmem with hmem | hmem
    · exact absurd rfl (hs.undecided _ hmem rfl).1
    · rw [mem_singleton, Event.moved.injEq] at hmem
      exact hmem.2.2 ▸ hspeaks
  · rcases mem_append.mp hmem with hmem | hmem
    · exact ⟨_, hs.only turn ok hmem ▸ hnew⟩
    · cases mem_singleton.mp hmem

/-- A section that writes the turn from within the window. -/
theorem turnTo_ok (hsay : c.isSay) {f : Hub cfg → α × Arbitration} (hs : Window c s) :
    (atomic fun _ s ↦ ((f s).1, s.turnTo c (f s).2) : Handler cfg α).Ok (turnDiscipline cfg)
      c.socket (fun _ s ↦ Passed s.history c) s := by
  refine ok_atomic (window_stable hsay) (fun _ ↦ passed_stable) hs fun i t ht hinv _ ↦ ?_
  have h : Effect c (fun k ↦ k = .move) t (t.turnTo c (f t).2) :=
    effect_turnTo (K := fun k ↦ k = .move) rfl _
  exact ⟨TurnInv.effect hinv h fun _ _ ↦ ht.turnTo _, h.turnGuar, ht.turnTo _⟩

theorem moveTurn_ok (hsay : c.isSay) (target next : Option cfg.Person) (hs : Window c s) :
    (moveTurn c target next).Ok (turnDiscipline cfg) c.socket
      (fun next s ↦ next.isSome → Passed s.history c) s := by
  have hstable (p : Option cfg.Person) : (turnDiscipline cfg).Stable c.socket
      fun s ↦ p.isSome → Passed s.history c :=
    fun s t hs hrely h ↦ passed_stable s t (hs h) hrely
  cases target with
  | none => exact (turnTo_ok hsay hs).mono fun _ _ ht _ ↦ ht
  | some _ =>
    cases next with
    | none => exact ok_pure (hstable none) nofun
    | some p =>
      refine ok_bind (turnTo_ok hsay (f := fun s ↦ ((), s.arbitration.grant _)) hs) fun _ t ht ↦ ?_
      exact ok_pure (hstable (some p)) fun _ ↦ ht

/-- A message that is routed has passed the turn on. -/
theorem relayMessage_ok (hsay : c.isSay) (message : Bytes) (hs : Window c s) :
    (relayMessage c message).Ok (turnDiscipline cfg) c.socket
      (fun outcome s ↦ outcome = .routed → Passed s.history c) s := by
  have hstable (outcome : Routed) : (turnDiscipline cfg).Stable c.socket
      fun s ↦ outcome = .routed → Passed s.history c :=
    fun s t hs hrely h ↦ passed_stable s t (hs h) hrely
  rw [relayMessage]
  split
  rename_i target addressed htarget
  split
  · exact ok_pure (hstable _) nofun
  split
  · exact ok_pure (hstable _) nofun
  refine ok_bind (window_quiet_ok hsay (reachHuman_takes _) hs) fun next t ht ↦ ?_
  refine ok_bind (window_quiet_ok hsay
    (takes_foldlM (deliverTo_takes (.inr (.inr (.inl rfl))) _ _) _ _) ht) fun next t ht ↦ ?_
  refine ok_bind (moveTurn_ok hsay target next ht) fun next t ht ↦ ?_
  cases next with
  | none => exact ok_pure (hstable _) nofun
  | some p =>
    refine ok_bind (passed_quiet_ok (announce_takes (.inr (.inr (.inl rfl))) _ _) (ht rfl))
      fun _ t ht ↦ ?_
    refine ok_bind (passed_quiet_ok (transcriptAppend_takes (.inr (.inl rfl)) _ _ _ _) ht)
      fun _ t ht ↦ ?_
    exact ok_pure (hstable _) fun _ ↦ ht

theorem rejectMessage_ok {error : String} (herror : ofAscii error ≠ accepted) (reserved : Bool) :
    (rejectMessage c reserved error).Ok (turnDiscipline cfg) c.socket (fun _ _ ↦ True) s := by
  rw [rejectMessage]
  split
  · refine ok_bind (quiet_ok (releaseInitiation_takes (.inl rfl)) (fun _ ↦ id)
      (Discipline.stable_true _ _)
      (fun _ _ _ _ ↦ trivial) trivial) fun _ t _ ↦ reply_ok herror
  · exact reply_ok herror

theorem acceptMessage_ok (hsay : c.isSay) (message : Bytes) (reserved : Bool) (hs : Window c s) :
    (acceptMessage c message .message reserved).Ok (turnDiscipline cfg) c.socket (fun _ _ ↦ True)
      s := by
  refine ok_bind (relayMessage_ok hsay message hs) fun outcome t ht ↦ ?_
  cases outcome with
  | routed =>
    refine ok_bind (passed_quiet_ok (transcriptAppend_takes (.inr (.inl rfl)) _ _ _ _) (ht rfl))
      fun _ t ht ↦ ?_
    exact ok_bind (passed_quiet_ok (markActivity_takes (.inl rfl)) ht)
      fun _ t ht ↦ send_accepted_ok ht
  | targetOffline | targetUnknown | targetSelf => exact rejectMessage_ok (by decide) _

/-- The handler of a `SAY` keeps the discipline. -/
theorem handleConnection_ok_of_say (hsay : c.isSay) (hs : Fresh c s) :
    (handleConnection c).Ok (turnDiscipline cfg) c.socket (fun _ _ ↦ True) s := by
  obtain ⟨message, hcommand⟩ : ∃ message, c.command = some (.say message) := by
    rw [Connection.isSay] at hsay
    split at hsay
    · rename_i message hmessage
      exact ⟨message, hmessage⟩
    · cases hsay
  refine ok_bind (quiet_ok markSeen_takes (fun _ ↦ False.elim) fresh_stable ?_ hs) fun _ t ht ↦ ?_
  · rintro s t hs ⟨new, ht, hown, -⟩ e he
    rw [ht] at he
    exact (mem_append.mp he).elim (hs e) fun he ↦ (hown e he).2.elim
  refine ok_bind (R := fun _ _ ↦ True) ?_ fun _ t _ ↦ ?_
  · rw [serveLine, hcommand]
    refine ok_bind (checkTurn_ok hsay ht) fun hasTurn t ht ↦ ?_
    rw [handleCommand]
    split
    · exact reply_ok (by decide)
    · rename_i hturn
      exact acceptMessage_ok hsay message false (ht (by simpa using hturn))
  · exact quiet_ok (networkClose_takes (.inr (.inr (.inr rfl)))) (fun _ ↦ id)
      (Discipline.stable_true _ _)
      (fun _ _ _ _ ↦ trivial) trivial

/-- A handler of anything else keeps it without further ado. -/
theorem handleConnection_ok_of_not_say (hsay : ¬ c.isSay) :
    (handleConnection c).Ok (turnDiscipline cfg) c.socket (fun _ _ ↦ True) s :=
  have heffect : (handleConnection c).Steps (Effect c fun _ ↦ True) :=
    effect_of_takes (handleConnection_section c) fun _ _ ↦ id
  heffect.ok (Discipline.stable_true _ _)
    (fun _ _ _ hinv _ h ↦ ⟨TurnInv.effect hinv h fun h ↦ absurd h hsay, h.turnGuar, trivial⟩)
    trivial

end

/-! ## The result -/

theorem turnInv_boot (restored : Name) (activity : Option Int) (logTime : Log → Nat) :
    TurnInv (Hub.boot cfg restored activity logTime) :=
  ⟨nofun, nofun, nofun⟩

theorem TurnInv.kept {s : Hub cfg} (h : TurnInv s) : TurnKept s.history := by
  refine ⟨fun c hsay hsent ↦ ?_, fun c c' turn ok ok' hsay hsay' hsent hsent' hcheck hcheck' ↦ ?_⟩
  · exact ⟨(h.said c hsay hsent).1, (h.said c hsay hsent).2.1⟩
  obtain ⟨holder, hholder⟩ := (h.said c hsay hsent).2.2 turn ok hcheck
  obtain ⟨holder', hholder'⟩ := (h.said c' hsay' hsent').2.2 turn ok' hcheck'
  exact h.unique c c' turn holder holder' hholder hholder'

/-- **In every interleaving in which nobody writes the turn while a `SAY` of another is on its way,
every accepted `SAY` ended a turn its sender held or that was free, and no turn admitted two.** -/
theorem turn_kept (restored : Name) (activity : Option Int) (logTime : Log → Nat)
    (acts : List (Act (Call cfg) Env))
    (hacts : System.Along connectionThread Undisturbed ⟨Hub.boot cfg restored activity logTime, []⟩
      acts) :
    TurnKept ((Hub.boot cfg restored activity logTime).after acts).history := by
  refine TurnInv.kept ((turnDiscipline cfg).run_inv (turnInv_boot restored activity logTime)
    (fun k call ↦ ?_) hacts)
  by_cases hsay : (⟨k, call.1, call.2⟩ : Connection cfg).isSay
  · exact handleConnection_ok_of_say hsay nofun
  · exact handleConnection_ok_of_not_say hsay

namespace small

/-- Bob drops by, then alice speaks, and then bob. -/
def oneAfterTheOther : List (Act (Call small) Env) :=
  [connects bob none] ++ goesOn 0 2 ++ [connects alice (some "SAY hello")] ++ goesOn 1 20 ++
    [connects bob (some "SAY hello yourself")] ++ goesOn 2 20

/-- Bob drops by, and then alice says two things at once. -/
def bothAtOnce : List (Act (Call small) Env) :=
  [connects bob none] ++ goesOn 0 2 ++
    [connects alice (some "SAY hello"), connects alice (some "SAY hello again")] ++
    goesOn 1 2 ++ goesOn 2 2 ++ goesOn 1 20 ++ goesOn 2 20

end small

theorem turn_kept_one_after_the_other :
    System.Along connectionThread Undisturbed ⟨small.start, []⟩ small.oneAfterTheOther ∧
      TurnKept (small.start.after small.oneAfterTheOther).history :=
  ⟨by decide +kernel, turn_kept _ _ _ _ (by decide +kernel)⟩

/-- **A run in which alice's second message is accepted although the first has passed her turn on to
bob.** -/
theorem double_say_accepted : ¬ TurnKept (small.start.after small.bothAtOnce).history := by
  intro h
  let second : Connection small := ⟨2, small.alice, some (ofAscii "SAY hello again")⟩
  have hheld := (h.held second (by decide) (by decide +kernel)).2 1 (small.contact small.bob).name
    (by decide +kernel)
  exact absurd hheld (by decide)

end Noobia.Council
