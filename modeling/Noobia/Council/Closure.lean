import Noobia.Council.Effect

/-!
# Ending a conversation

An arbiter proposes to end the conversation, everyone who is online votes, and when all have voted
to close the hub writes `conversation-end` to the transcript.  A single vote to continue is to keep
the conversation going.

A handler enters its vote under the lock, but it then answers, looks through the votes and writes
the record without it, and the proposal is marked as settled only after that.  Two handlers that
enter the last two votes can therefore both find the vote complete and both end the conversation;
`double_ending` is such a run.

`closure_agreed` says that it is the overlap that does it.  In every interleaving in which a
proposal is opened and a vote entered only while no handler that has done so is still at work, a
proposal leads to at most one `conversation-end`, and when that is written everyone who was online
when the proposal was opened has voted to close and no vote to continue has been accepted.
-/

namespace Noobia.Council

open List

open Routine

variable {cfg : Config}

/-! ## The property and the condition -/

/-- A note of the record that the conversation has ended on a proposal. -/
def Event.ends (proposal : Nat) : Event cfg → Bool
  | .recorded _ _ record n => record.event = .conversationEnd && n = proposal
  | _ => false

/-- The caller's line proposes to end the conversation or votes for it, perhaps with a reason, or it
votes against it and gives one. -/
def Connection.Says (c : Connection cfg) (close : Bool) : Prop :=
  ∃ line ∈ c.line.map CString.text, ∃ reason,
    if close then line = Bytes.ofAscii "END_PROPOSE " ++ reason ∨
      line = Bytes.ofAscii "END_VOTE close" ∨ line = Bytes.ofAscii "END_VOTE close " ++ reason
    else reason ≠ [] ∧ line = Bytes.ofAscii "END_VOTE continue " ++ reason

/-- What has to have happened before a conversation may end on a proposal. -/
structure Agreed (before : List (Event cfg)) (proposal : Nat) : Prop where
  /-- The proposal was made. -/
  opened : ∃ c roll, .opened c proposal roll ∈ before
  /-- The votes are what the lines say that they come with. -/
  said : ∀ c close, .voted c proposal close ∈ before → c.Says close
  /-- Everyone counted online at that time has voted to close. -/
  unanimous : ∀ c roll, .opened c proposal roll ∈ before → ∀ p ∈ roll,
    ∃ v : Connection cfg, v.person = p ∧ .voted v proposal true ∈ before
  /-- No vote to continue has been accepted. -/
  unopposed : ∀ c, .voted c proposal false ∈ before → .sent c accepted ∉ before

/-- What is to hold of the history of a hub. -/
structure ClosureAgreed (history : List (Event cfg)) : Prop where
  /-- No two records end the conversation on the same proposal. -/
  once : ∀ (i j : Nat) (e e' : Event cfg) (proposal : Nat), history[i]? = some e →
    history[j]? = some e' → e.ends proposal → e'.ends proposal → i = j
  /-- A record is written only after everyone has agreed. -/
  agreed : ∀ (i : Nat) (e : Event cfg) (proposal : Nat), history[i]? = some e → e.ends proposal →
    Agreed (history.take i) proposal

/-- The connections that have opened a proposal or voted on one and are still being handled. -/
def closing (history : List (Event cfg)) : List (Connection cfg) :=
  history.filterMap fun e ↦
    if e.kind = .ballot ∧ .closed e.connection ∉ history then some e.connection else none

/-- How many notes of proposals and votes there are. -/
def ballots (history : List (Event cfg)) : Nat := history.countP fun e ↦ e.kind = .ballot

/-- Thread `k` does not open a proposal or enter a vote while another that has is still at work. -/
def OneAtATime (k : Nat) (s t : Hub cfg) : Prop :=
  ballots t.history ≠ ballots s.history → ∀ c ∈ closing s.history, c.socket = k
  deriving Decidable

/-! ## Histories -/

section

variable {history new : List (Event cfg)} {c : Connection cfg} {e : Event cfg}

theorem mem_closing :
    c ∈ closing history ↔
      (∃ e ∈ history, e.connection = c ∧ e.kind = .ballot) ∧ .closed c ∉ history := by
  rw [closing, mem_filterMap]
  constructor
  · rintro ⟨e, he, hc⟩
    split at hc
    · rename_i hcond
      obtain rfl := Option.some.inj hc
      exact ⟨⟨e, he, rfl, hcond.1⟩, hcond.2⟩
    · cases hc
  · rintro ⟨⟨e, he, rfl, hkind⟩, hclosed⟩
    exact ⟨e, he, if_pos ⟨hkind, hclosed⟩⟩

theorem mem_closing_append (hnew : ∀ e ∈ new, e.kind ≠ .ballot) :
    c ∈ closing (history ++ new) ↔ c ∈ closing history ∧ .closed c ∉ new := by
  have hnone : ¬ ∃ e ∈ new, e.connection = c ∧ e.kind = .ballot :=
    fun ⟨e, he, _, hkind⟩ ↦ hnew e he hkind
  rw [mem_closing, mem_closing]
  simp only [mem_append, or_and_right, exists_or, hnone, or_false, not_or, and_assoc]

/-- What others note makes no difference to whether a connection is closing. -/
theorem mem_closing_append_iff (hnew : ∀ e ∈ new, e.connection.socket ≠ c.socket) :
    c ∈ closing (history ++ new) ↔ c ∈ closing history := by
  have hne : ∀ e ∈ new, e.connection ≠ c := fun e he h ↦ hnew e he (congrArg _ h)
  have hnone : ¬ ∃ e ∈ new, e.connection = c ∧ e.kind = .ballot :=
    fun ⟨e, he, hec, _⟩ ↦ hne e he hec
  have hclosed : .closed c ∉ new := fun h ↦ hne _ h rfl
  rw [mem_closing, mem_closing]
  simp only [mem_append, or_and_right, exists_or, hnone, hclosed, or_false]

theorem ballots_append_eq (history new : List (Event cfg)) :
    ballots (history ++ new) = ballots history ↔ ∀ e ∈ new, e.kind ≠ .ballot := by
  rw [ballots, ballots, countP_append, Nat.add_eq_left, countP_eq_zero]
  simp

/-- The record that ends a conversation is a kind of its own. -/
theorem kind_of_ends {proposal : Nat} (h : e.ends proposal) : e.kind = .finale := by
  cases e with
  | recorded c log record n =>
    simp only [Event.ends, Bool.and_eq_true, decide_eq_true_eq] at h
    simp [Event.kind, LogEvent.kind, h.1]
  | _ => cases h

/-- A record may be added when it is the first for its proposal and everyone has agreed. -/
theorem ClosureAgreed.concat (h : ClosureAgreed history)
    (hnew : ∀ proposal, e.ends proposal →
      (∀ e' ∈ history, ¬ e'.ends proposal) ∧ Agreed history proposal) :
    ClosureAgreed (history ++ [e]) := by
  have hlast {i : Nat} {e' : Event cfg} (hi : (history ++ [e])[i]? = some e') :
      history[i]? = some e' ∧ i < history.length ∨ i = history.length ∧ e' = e := by
    rcases Nat.lt_trichotomy i history.length with hlt | rfl | hgt
    · exact .inl ⟨getElem?_append_left hlt ▸ hi, hlt⟩
    · rw [getElem?_concat_length] at hi
      exact .inr ⟨rfl, (Option.some.inj hi).symm⟩
    · rw [getElem?_eq_none (by rw [length_append, length_singleton]; omega)] at hi
      cases hi
  refine ⟨fun i j e₁ e₂ n hi hj h₁ h₂ ↦ ?_, fun i e' n hi he ↦ ?_⟩
  · rcases hlast hi with ⟨hi', -⟩ | ⟨rfl, rfl⟩ <;> rcases hlast hj with ⟨hj', -⟩ | ⟨rfl, rfl⟩
    · exact h.once i j e₁ e₂ n hi' hj' h₁ h₂
    · exact absurd h₁ ((hnew n h₂).1 e₁ (mem_of_getElem? hi'))
    · exact absurd h₂ ((hnew n h₁).1 e₂ (mem_of_getElem? hj'))
    · rfl
  · rcases hlast hi with ⟨hi, hlt⟩ | ⟨rfl, rfl⟩
    · rw [take_append_of_le_length hlt.le]
      exact h.agreed i e' n hi he
    · rw [take_left]
      exact (hnew n he).2

theorem ClosureAgreed.append (h : ClosureAgreed history)
    (hnew : ∀ e ∈ new, ∀ proposal, ¬ e.ends proposal) : ClosureAgreed (history ++ new) := by
  induction new generalizing history with
  | nil => rwa [append_nil]
  | cons e new ih =>
    obtain ⟨he, hnew⟩ := forall_mem_cons.mp hnew
    rw [append_cons]
    exact ih (h.concat fun n hn ↦ absurd hn (he n)) hnew

end

/-! ## The discipline -/

/-- The proposal under vote, if there is one, has neither ended the conversation nor met with an
accepted vote to continue. -/
def Open (s : Hub cfg) : Prop :=
  s.closure.active = true →
    (∀ e ∈ s.history, ¬ e.ends s.closure.proposals) ∧
    ∀ c, .voted c s.closure.proposals false ∈ s.history → .sent c accepted ∉ s.history

/-- What holds of the hub throughout. -/
structure ClosureInv (s : Hub cfg) : Prop where
  agreed : ClosureAgreed s.history
  alone : ∀ c c', c ∈ closing s.history → c' ∈ closing s.history → c = c'
  opened : s.closure.active = true → ∃ c roll, .opened c s.closure.proposals roll ∈ s.history
  roll : ∀ c n roll, .opened c n roll ∈ s.history → n ≤ s.closure.proposals ∧
    (n = s.closure.proposals → ∀ p ∈ roll, s.closure.expected p = true)
  votes : ∀ p, s.closure.votes p = 1 →
    ∃ v : Connection cfg, v.person = p ∧ .voted v s.closure.proposals true ∈ s.history
  voted : ∀ c n close, .voted c n close ∈ s.history → n ≤ s.closure.proposals ∧ c.Says close
  ended : ∀ e ∈ s.history, ∀ n, e.ends n → n ≤ s.closure.proposals
  idle : closing s.history = [] → Open s

/-- What happens to the vote while `c` is not at it: nothing. -/
def LeavesVote (s t : Hub cfg) (new : List (Event cfg)) : Prop :=
  t.closure = s.closure ∧ (∀ e ∈ new, e.kind ≠ .ballot ∧ e.kind ≠ .finale) ∧
    ∀ c, .sent c accepted ∈ new → ∀ n, .voted c n false ∉ s.history

/-- What a handler guarantees: it leaves the vote alone unless it has just taken part in it. -/
def ClosureGuar (k : Nat) (s t : Hub cfg) : Prop :=
  ∃ new, t.history = s.history ++ new ∧ (∀ e ∈ new, e.connection.socket = k) ∧
    ((∀ e ∈ new, e.kind ≠ .ballot) → (∀ c ∈ closing s.history, c.socket ≠ k) → LeavesVote s t new)

/-- What a handler relies on: nothing is noted in its name, and the others leave the vote alone
while it is at it. -/
def ClosureRely (k : Nat) (s t : Hub cfg) : Prop :=
  ∃ new, t.history = s.history ++ new ∧ (∀ e ∈ new, e.connection.socket ≠ k) ∧
    ∀ c ∈ closing s.history, c.socket = k → LeavesVote s t new

theorem LeavesVote.trans {s t u : Hub cfg} {new new' : List (Event cfg)} (h : LeavesVote s t new)
    (ht : t.history = s.history ++ new) (h' : LeavesVote t u new') :
    LeavesVote s u (new ++ new') := by
  obtain ⟨hclosure, hkind, hsent⟩ := h
  obtain ⟨hclosure', hkind', hsent'⟩ := h'
  refine ⟨hclosure'.trans hclosure, fun e he ↦ ?_, fun c hc n hn ↦ ?_⟩
  · exact (mem_append.mp he).elim (hkind e) (hkind' e)
  rcases mem_append.mp hc with hc | hc
  · exact hsent c hc n hn
  · exact hsent' c hc n (ht ▸ mem_append_left _ hn)

/-- The discipline under which a vote is what it seems. -/
def closureDiscipline (cfg : Config) : Discipline (Hub cfg) where
  Inv := ClosureInv
  Allowed := OneAtATime
  Guar := ClosureGuar
  Rely := ClosureRely
  rely_refl _ s := ⟨[], (List.append_nil _).symm, nofun, fun _ _ _ ↦ ⟨rfl, nofun, nofun⟩⟩
  rely_trans := by
    rintro k s t u ⟨new, ht, hnew, hst⟩ ⟨new', hu, hnew', htu⟩
    refine ⟨new ++ new', by rw [hu, ht, List.append_assoc], fun e he ↦ ?_, fun c hc hk ↦ ?_⟩
    · exact (List.mem_append.mp he).elim (hnew e) (hnew' e)
    refine (hst c hc hk).trans ht (htu c ?_ hk)
    rw [ht, mem_closing_append_iff (hk ▸ hnew)]
    exact hc
  spread := by
    rintro j k s t hne hinv hallowed ⟨new, ht, hnew, hleaves⟩
    refine ⟨new, ht, fun e he ↦ hnew e he ▸ hne.symm, fun c hc hj ↦ ?_⟩
    refine hleaves ((ballots_append_eq s.history new).mp ?_) fun c' hc' hk ↦ ?_
    · by_contra hballots
      exact hne (hj.symm.trans (hallowed (ht ▸ hballots) c hc))
    · exact hne (hj.symm.trans ((congrArg _ (hinv.alone c c' hc hc')).trans hk))

/-! ## Sections that leave the vote alone -/

/-- The kinds of notes that have nothing to do with the vote. -/
def Calm (k : Kind) : Prop := k ≠ .ballot ∧ k ≠ .settle ∧ k ≠ .finale
  deriving Decidable

/-- Those of them that a handler makes before it closes the socket. -/
def Busy (k : Kind) : Prop := Calm k ∧ k ≠ .close
  deriving Decidable

section

variable {c : Connection cfg} {s t : Hub cfg}

theorem Effect.closure (h : Effect c Calm s t) : t.closure = s.closure := by
  obtain ⟨new, -, hown, -, hclosure⟩ := h
  exact hclosure fun e he ↦ ⟨(hown e he).2.1, (hown e he).2.2.1⟩

variable {new : List (Event cfg)} {K : Kind → Prop} {α : Type} {m : Handler cfg α} {e : Event cfg}

/-- Without a new ballot most of the invariant is kept; the rest is for the section to see to. -/
theorem ClosureInv.extend (hs : ClosureInv s) (hhistory : t.history = s.history ++ new)
    (hballot : ∀ e ∈ new, e.kind ≠ .ballot) (hproposals : t.closure.proposals = s.closure.proposals)
    (hexpected : t.closure.expected = s.closure.expected)
    (hvotes : t.closure.votes = s.closure.votes)
    (hactive : t.closure.active = true → s.closure.active = true)
    (hagreed : ClosureAgreed t.history)
    (hended : ∀ e ∈ new, ∀ n, e.ends n → n ≤ s.closure.proposals)
    (hidle : closing t.history = [] → Open t) : ClosureInv t := by
  refine ⟨hagreed, fun c₁ c₂ h₁ h₂ ↦ ?_, fun h ↦ ?_, fun c' n roll hmem ↦ ?_, fun p hp ↦ ?_,
    fun c' n close hmem ↦ ?_, fun e he n hn ↦ ?_, hidle⟩
  · rw [hhistory, mem_closing_append hballot] at h₁ h₂
    exact hs.alone c₁ c₂ h₁.1 h₂.1
  · obtain ⟨c', roll, hmem⟩ := hs.opened (hactive h)
    exact ⟨c', roll, by rw [hhistory, hproposals]; exact mem_append_left _ hmem⟩
  · rw [hhistory] at hmem
    rw [hproposals, hexpected]
    exact hs.roll c' n roll ((mem_append.mp hmem).resolve_right fun he ↦ hballot _ he rfl)
  · rw [hvotes] at hp
    obtain ⟨v, hv, hmem⟩ := hs.votes p hp
    exact ⟨v, hv, by rw [hhistory, hproposals]; exact mem_append_left _ hmem⟩
  · rw [hhistory] at hmem
    rw [hproposals]
    exact hs.voted c' n close ((mem_append.mp hmem).resolve_right fun he ↦ hballot _ he rfl)
  · rw [hhistory] at he
    rw [hproposals]
    exact (mem_append.mp he).elim (fun he ↦ hs.ended e he n hn) fun he ↦ hended e he n hn

theorem ClosureInv.calm (hs : ClosureInv s) (h : Effect c Calm s t)
    (hidle : closing t.history = [] → Open t) : ClosureInv t := by
  have hclosure := h.closure
  obtain ⟨new, hhistory, hown, -⟩ := h
  have hends : ∀ e ∈ new, ∀ n, ¬ e.ends n := fun e he n hn ↦ (hown e he).2.2.2 (kind_of_ends hn)
  refine hs.extend hhistory (fun e he ↦ (hown e he).2.1) (by rw [hclosure]) (by rw [hclosure])
    (by rw [hclosure]) (by rw [hclosure]; exact id) ?_
    (fun e he n hn ↦ absurd hn (hends e he n)) hidle
  rw [hhistory]
  exact hs.agreed.append hends

/-- A proposal stays open while its votes to continue stay unanswered. -/
theorem Open.append (hs : Open s) (ht : t.history = s.history ++ new) (h : LeavesVote s t new) :
    Open t := by
  obtain ⟨hclosure, hkind, hsent⟩ := h
  intro hactive
  rw [hclosure] at hactive ⊢
  obtain ⟨hends, hopposed⟩ := hs hactive
  refine ⟨fun e he hn ↦ ?_, fun c' hvoted hmem ↦ ?_⟩
  · rw [ht] at he
    rcases mem_append.mp he with he | he
    · exact hends e he hn
    · exact (hkind e he).2 (kind_of_ends hn)
  · rw [ht] at hvoted hmem
    have hvoted := (mem_append.mp hvoted).resolve_right fun he ↦ (hkind _ he).1 rfl
    rcases mem_append.mp hmem with hmem | hmem
    · exact hopposed c' hvoted hmem
    · exact hsent c' hmem _ hvoted

/-- The caller has not voted to continue. -/
def Harmless (c : Connection cfg) (s : Hub cfg) : Prop := ∀ n, .voted c n false ∉ s.history

theorem Effect.leavesVote (h : Effect c Calm s t) (hs : Harmless c s) :
    ∃ new, t.history = s.history ++ new ∧ (∀ e ∈ new, e.connection = c ∧ Calm e.kind) ∧
      LeavesVote s t new := by
  have hclosure := h.closure
  obtain ⟨new, hhistory, hown, -⟩ := h
  refine ⟨new, hhistory, hown, hclosure, fun e he ↦ ⟨(hown e he).2.1, (hown e he).2.2.2⟩,
    fun c' hc n hn ↦ ?_⟩
  obtain rfl : c' = c := (hown _ hc).1
  exact hs n hn

theorem Harmless.calm (hs : Harmless c s) (h : Effect c Calm s t) : Harmless c t := by
  obtain ⟨new, hhistory, hown, -⟩ := h
  intro n hn
  rw [hhistory] at hn
  exact (mem_append.mp hn).elim (hs n) fun hn ↦ (hown _ hn).2.1 rfl

theorem Effect.stays_closing (h : Effect c K s t) (hs : c ∈ closing s.history) (hK : ¬ K .ballot)
    (hclose : ¬ K .close) : c ∈ closing t.history := by
  obtain ⟨new, hhistory, hown, -⟩ := h
  have hballot : ∀ e ∈ new, e.kind ≠ .ballot := fun e he hkind ↦ hK (hkind ▸ (hown e he).2)
  rw [hhistory, mem_closing_append hballot]
  exact ⟨hs, fun hclosed ↦ hclose (hown _ hclosed).2⟩

/-- One who is at the vote may do with it what it likes. -/
theorem Effect.guar_of_closing (h : Effect c K s t) (hs : c ∈ closing s.history) :
    ClosureGuar c.socket s t := by
  obtain ⟨new, hhistory, hown, -⟩ := h
  exact ⟨new, hhistory, fun e he ↦ congrArg _ (hown e he).1, fun _ hnot ↦ absurd rfl (hnot c hs)⟩

theorem Effect.guar_of_harmless (h : Effect c Calm s t) (hs : Harmless c s) :
    ClosureGuar c.socket s t := by
  obtain ⟨new, hhistory, hown, hleaves⟩ := h.leavesVote hs
  exact ⟨new, hhistory, fun e he ↦ congrArg _ (hown e he).1, fun _ _ ↦ hleaves⟩

/-! ## Where a handler can be -/

/-- It has not taken part in a vote, nor closed the socket. -/
def Idle (c : Connection cfg) (s : Hub cfg) : Prop :=
  ∀ e ∈ s.history, e.connection.socket = c.socket → e.kind ≠ .ballot ∧ e.kind ≠ .close

/-- It has proposed or voted to close, and its proposal is open. -/
structure Deciding (c : Connection cfg) (s : Hub cfg) : Prop where
  closing : c ∈ closing s.history
  active : s.closure.active = true
  isOpen : Open s
  harmless : Harmless c s

/-- It may close the socket: the vote is over, or it has left it open. -/
def Rest (c : Connection cfg) (s : Hub cfg) : Prop :=
  c ∈ closing s.history ∧ s.closure.active = false ∨
    Harmless c s ∧ (c ∈ closing s.history → Open s)

theorem Idle.harmless (hs : Idle c s) : Harmless c s := fun _ hn ↦ (hs _ hn rfl).1 rfl

theorem Idle.not_closing (hs : Idle c s) : ∀ c' ∈ closing s.history, c'.socket ≠ c.socket := by
  intro c' hc' hsocket
  obtain ⟨⟨e, he, hec, hkind⟩, -⟩ := mem_closing.mp hc'
  exact (hs e he (hec ▸ hsocket)).1 hkind

theorem Idle.rest (hs : Idle c s) : Rest c s :=
  .inr ⟨hs.harmless, fun hc ↦ absurd rfl (hs.not_closing c hc)⟩

theorem Deciding.rest (hs : Deciding c s) : Rest c s := .inr ⟨hs.harmless, fun _ ↦ hs.isOpen⟩

theorem harmless_append (hs : Harmless c s) (ht : t.history = s.history ++ new)
    (hnew : ∀ e ∈ new, e.connection.socket ≠ c.socket) : Harmless c t := by
  intro n hn
  rw [ht] at hn
  exact (mem_append.mp hn).elim (hs n) fun hn ↦ hnew _ hn rfl

theorem idle_stable : (closureDiscipline cfg).Stable c.socket (Idle c) := by
  rintro s t hs ⟨new, ht, hnew, -⟩ e he hec
  rw [ht] at he
  exact (mem_append.mp he).elim (fun he ↦ hs e he hec) fun he ↦ absurd hec (hnew e he)

theorem closing_stable : (closureDiscipline cfg).Stable c.socket fun s ↦ c ∈ closing s.history := by
  rintro s t hs ⟨new, ht, hnew, -⟩
  rw [ht, mem_closing_append_iff hnew]
  exact hs

theorem rest_stable : (closureDiscipline cfg).Stable c.socket (Rest c) := by
  rintro s t (⟨hclosing, hactive⟩ | ⟨hharmless, hopen⟩) ⟨new, ht, hnew, hrely⟩
  · refine .inl ⟨by rwa [ht, mem_closing_append_iff hnew], ?_⟩
    rw [(hrely c hclosing rfl).1]
    exact hactive
  · refine .inr ⟨harmless_append hharmless ht hnew, fun hclosing ↦ ?_⟩
    rw [ht, mem_closing_append_iff hnew] at hclosing
    exact (hopen hclosing).append ht (hrely c hclosing rfl)

/-- A handler that is deciding can count on what it has seen of the vote. -/
theorem deciding_and_stable (F : Closure cfg → Prop) :
    (closureDiscipline cfg).Stable c.socket fun s ↦ Deciding c s ∧ F s.closure := by
  rintro s t ⟨hs, hF⟩ hrely
  have hclosing := closing_stable s t hs.closing hrely
  obtain ⟨new, ht, hnew, hrely⟩ := hrely
  have hleaves := hrely c hs.closing rfl
  refine ⟨⟨hclosing, ?_, hs.isOpen.append ht hleaves, harmless_append hs.harmless ht hnew⟩, ?_⟩
  · rw [hleaves.1]
    exact hs.active
  · rw [hleaves.1]
    exact hF

theorem deciding_stable : (closureDiscipline cfg).Stable c.socket (Deciding c) := fun s t hs hrely ↦
  (deciding_and_stable (fun _ ↦ True) s t ⟨hs, trivial⟩ hrely).1

/-! ## Routines that leave the vote alone -/

theorem Busy.calm {k : Kind} (h : Busy k) : Calm k := h.1

/-- A section of a handler that may close its socket. -/
theorem ClosureInv.rest (hs : ClosureInv s) (hrest : Rest c s) (h : Effect c Calm s t) :
    ClosureInv t := by
  refine hs.calm h fun hnone ↦ ?_
  rcases hrest with ⟨-, hactive⟩ | ⟨hharmless, hopen⟩
  · intro hactive'
    rw [h.closure, hactive] at hactive'
    cases hactive'
  obtain ⟨new, hhistory, hown, hleaves⟩ := h.leavesVote hharmless
  refine Open.append ?_ hhistory hleaves
  cases hclosing : closing s.history with
  | nil => exact hs.idle hclosing
  | cons c' rest =>
    -- whoever was at the vote must have been the one to close its socket
    have hmem : c' ∈ closing s.history := hclosing ▸ mem_cons_self
    by_cases hclosed : .closed c' ∈ new
    · obtain rfl : c' = c := (hown _ hclosed).1
      exact hopen hmem
    have := (mem_closing_append fun e he ↦ (hown e he).2.1).mpr ⟨hmem, hclosed⟩
    rw [← hhistory, hnone] at this
    cases this

theorem Rest.guar (hs : Rest c s) (h : Effect c Calm s t) : ClosureGuar c.socket s t := by
  rcases hs with ⟨hclosing, -⟩ | ⟨hharmless, -⟩
  · exact h.guar_of_closing hclosing
  · exact h.guar_of_harmless hharmless

theorem Idle.busy (hs : Idle c s) (h : Effect c Busy s t) : Idle c t := by
  obtain ⟨new, hhistory, hown, -⟩ := h
  intro e he hec
  rw [hhistory] at he
  rcases mem_append.mp he with he | he
  · exact hs e he hec
  · exact ⟨(hown e he).2.1.1, (hown e he).2.2⟩

theorem Rest.busy (hs : Rest c s) (h : Effect c Busy s t) : Rest c t := by
  have hcalm := h.mono fun _ ↦ Busy.calm
  rcases hs with ⟨hclosing, hactive⟩ | ⟨hharmless, hopen⟩
  · refine .inl ⟨h.stays_closing hclosing (by decide) (by decide), ?_⟩
    rw [hcalm.closure]
    exact hactive
  obtain ⟨new, hhistory, hown, hleaves⟩ := hcalm.leavesVote hharmless
  refine .inr ⟨hharmless.calm hcalm, fun hclosing ↦ ?_⟩
  rw [hhistory, mem_closing_append fun e he ↦ (hown e he).2.1] at hclosing
  exact (hopen hclosing.1).append hhistory hleaves

theorem Deciding.busy (hs : Deciding c s) (h : Effect c Busy s t) : Deciding c t := by
  have hcalm := h.mono fun _ ↦ Busy.calm
  obtain ⟨new, hhistory, -, hleaves⟩ := hcalm.leavesVote hs.harmless
  refine ⟨h.stays_closing hs.closing (by decide) (by decide), ?_,
    hs.isOpen.append hhistory hleaves, hs.harmless.calm hcalm⟩
  rw [hcalm.closure]
  exact hs.active

/-- A routine of a handler that has nothing to do with the vote. -/
theorem idle_ok (hm : m.Takes (Section c Busy)) (hs : Idle c s) :
    m.Ok (closureDiscipline cfg) c.socket (fun _ ↦ Idle c) s := by
  refine (effect_of_takes hm fun _ _ ↦ id).ok idle_stable (fun s t hs hinv _ h ↦ ?_) hs
  have hcalm := h.mono fun _ ↦ Busy.calm
  exact ⟨hinv.rest hs.rest hcalm, hs.rest.guar hcalm, hs.busy h⟩

theorem rest_ok (hm : m.Takes (Section c Busy)) (hs : Rest c s) :
    m.Ok (closureDiscipline cfg) c.socket (fun _ ↦ Rest c) s := by
  refine (effect_of_takes hm fun _ _ ↦ id).ok rest_stable (fun s t hs hinv _ h ↦ ?_) hs
  have hcalm := h.mono fun _ ↦ Busy.calm
  exact ⟨hinv.rest hs hcalm, hs.guar hcalm, hs.busy h⟩

/-- While somebody is at the vote it need not be open. -/
theorem ClosureInv.busy (hs : ClosureInv s) (hclosing : c ∈ closing s.history)
    (h : Effect c Busy s t) : ClosureInv t := by
  refine hs.calm (h.mono fun _ ↦ Busy.calm) fun hnone ↦ ?_
  have := h.stays_closing hclosing (by decide) (by decide)
  rw [hnone] at this
  cases this

theorem closing_ok (hm : m.Takes (Section c Busy)) (hs : c ∈ closing s.history) :
    m.Ok (closureDiscipline cfg) c.socket (fun _ s ↦ c ∈ closing s.history) s :=
  (effect_of_takes hm fun _ _ ↦ id).ok closing_stable (fun _ _ hs hinv _ h ↦
    ⟨hinv.busy hs h, h.guar_of_closing hs,
      h.stays_closing hs (by decide) (by decide)⟩) hs

theorem deciding_ok (hm : m.Takes (Section c Busy)) (hs : Deciding c s) :
    m.Ok (closureDiscipline cfg) c.socket (fun _ ↦ Deciding c) s :=
  (effect_of_takes hm fun _ _ ↦ id).ok deciding_stable (fun _ _ hs hinv _ h ↦
    ⟨hinv.busy hs.closing h, h.guar_of_closing hs.closing, hs.busy h⟩) hs

/-! ## The end of a vote -/

/-- Everyone who is asked has voted to close. -/
def Complete (closure : Closure cfg) : Prop :=
  ∀ p, closure.expected p = true → closure.votes p = 1

/-- A look at the vote by a handler that is deciding. -/
theorem look_deciding_ok {f : Hub cfg → α} {F : Closure cfg → Prop} {G : α → Closure cfg → Prop}
    (hs : Deciding c s ∧ F s.closure) (hG : ∀ s, F s.closure → G (f s) s.closure) :
    (look f : Handler cfg α).Ok (closureDiscipline cfg) c.socket
      (fun a s ↦ Deciding c s ∧ G a s.closure) s :=
  ok_atomic (deciding_and_stable F) (fun a ↦ deciding_and_stable (G a)) hs fun _ t ht hinv _ ↦
    ⟨hinv, (effect_self : Effect c Calm t t).guar_of_closing ht.1.closing, ht.1, hG t ht.2⟩

/-- What a scan of some votes says: if it found them complete they are. -/
def Scanned (F : Closure cfg → Prop) (people : List cfg.Person) (complete : Bool)
    (closure : Closure cfg) : Prop :=
  complete = true → F closure ∧ ∀ p ∈ people, closure.expected p = true → closure.votes p = 1

/-- The scan of the votes tells whether they are complete. -/
theorem closureComplete_ok (people : List cfg.Person) (F : Closure cfg → Prop)
    (hs : Deciding c s ∧ F s.closure) :
    (closureComplete people).Ok (closureDiscipline cfg) c.socket
      (fun complete s ↦ Deciding c s ∧ Scanned F people complete s.closure) s := by
  induction people generalizing F s with
  | nil => exact ok_pure (deciding_and_stable (Scanned F [] true)) ⟨hs.1, fun _ ↦ ⟨hs.2, nofun⟩⟩
  | cons p people ih =>
    rw [closureComplete]
    refine ok_bind (look_deciding_ok (G := fun missing ↦ Scanned F [p] (!missing)) hs
      fun s hF hfound ↦ ⟨hF, fun q hq hexpected ↦ ?_⟩) fun missing t ht ↦ ?_
    · obtain rfl := mem_singleton.mp hq
      simpa [hexpected] using hfound
    cases missing with
    | true => exact ok_pure (deciding_and_stable (Scanned F (p :: people) false)) ⟨ht.1, nofun⟩
    | false =>
      refine (ih (fun closure ↦ F closure ∧ ∀ q ∈ [p], closure.expected q = true →
        closure.votes q = 1) ⟨ht.1, ht.2 rfl⟩).mono fun complete u hu ↦ ⟨hu.1, fun hcomplete ↦ ?_⟩
      obtain ⟨⟨hF, hp⟩, hpeople⟩ := hu.2 hcomplete
      refine ⟨hF, fun q hq ↦ (mem_cons.mp hq).elim (fun h ↦ ?_) (hpeople q)⟩
      exact h ▸ hp p (mem_singleton_self p)

/-- The record of the end, written by a handler that has found the vote complete. -/
theorem record_end_ok {detail : Bytes} {n : Nat}
    (hs : Deciding c s ∧ Complete s.closure ∧ s.closure.proposals = n) :
    (transcriptAppend c .transcript cfg.name .conversationEnd detail n).Ok (closureDiscipline cfg)
      c.socket (fun _ s ↦ c ∈ closing s.history) s := by
  refine ok_atomic (deciding_and_stable fun closure ↦ Complete closure ∧ closure.proposals = n)
    (fun _ ↦ closing_stable) hs fun i t ht hinv _ ↦ ?_
  obtain ⟨hdeciding, hcomplete, rfl⟩ := ht
  dsimp only
  split
  · let e : Event cfg := .recorded c .transcript ⟨i.now, cfg.name, .conversationEnd, detail⟩
      t.closure.proposals
    have h : Effect c (· = .finale) t (t.append c .transcript
        ⟨i.now, cfg.name, .conversationEnd, detail⟩ t.closure.proposals) :=
      effect_note e rfl rfl nofun rfl rfl rfl rfl
    have hclosing := h.stays_closing hdeciding.closing nofun nofun
    refine ⟨?_, h.guar_of_closing hdeciding.closing, hclosing⟩
    obtain ⟨hends, hopposed⟩ := hdeciding.isOpen hdeciding.active
    have hproposal : ∀ n, e.ends n → n = t.closure.proposals := by
      intro n hn
      simpa [e, Event.ends, eq_comm] using hn
    refine hinv.extend rfl (by simp [Event.kind, LogEvent.kind]) rfl rfl rfl id
      (hinv.agreed.concat fun n hn ↦ ?_) (fun e' he' n hn ↦ ?_) fun hnone ↦ ?_
    · obtain rfl := hproposal n hn
      refine ⟨hends, hinv.opened hdeciding.active, fun c' close hvoted ↦ ?_,
        fun c' roll hroll p hp ↦ ?_, hopposed⟩
      · exact (hinv.voted c' _ close hvoted).2
      exact hinv.votes p (hcomplete p ((hinv.roll c' _ roll hroll).2 rfl p hp))
    · obtain rfl := mem_singleton.mp he'
      exact (hproposal n hn).le
    · rw [hnone] at hclosing
      cases hclosing
  · exact ⟨hinv, (effect_self : Effect c Calm t t).guar_of_closing hdeciding.closing,
      hdeciding.closing⟩

theorem settle_ok {speaker : Bytes} (hs : c ∈ closing s.history) :
    (settle c speaker).Ok (closureDiscipline cfg) c.socket (fun _ ↦ Rest c) s := by
  refine ok_atomic closing_stable (fun _ ↦ rest_stable) hs fun i t ht hinv _ ↦ ?_
  have h : Effect c (fun k ↦ k = .move ∨ k = .settle) t (t.settle c speaker) :=
    effect_settle (K := fun k ↦ k = .move ∨ k = .settle) (.inl rfl) (.inr rfl) speaker
  refine ⟨?_, h.guar_of_closing ht, .inl ⟨h.stays_closing ht (by simp) (by simp), rfl⟩⟩
  refine hinv.extend (history_settle t speaker) (by simp [Event.kind]) rfl rfl rfl nofun ?_
    (by simp [Event.ends]) fun _ hactive ↦ by cases hactive
  exact history_settle (c := c) t speaker ▸ hinv.agreed.append (by simp [Event.ends])

theorem closureFinish_ok (hs : Deciding c s ∧ Complete s.closure) :
    (closureFinish c).Ok (closureDiscipline cfg) c.socket (fun _ ↦ Rest c) s := by
  refine ok_bind (look_deciding_ok (G := fun r closure ↦ Complete closure ∧ closure.proposals = r.2)
    hs fun s h ↦ ⟨h, rfl⟩) fun r t ht ↦ ?_
  refine ok_bind (record_end_ok ht) fun _ t ht ↦ ok_bind (settle_ok ht) fun _ t ht ↦ ?_
  exact rest_ok (releaseInitiation_takes (by decide)) ht

theorem closeIfComplete_ok (hs : Deciding c s) :
    (closeIfComplete c).Ok (closureDiscipline cfg) c.socket (fun _ ↦ Rest c) s := by
  refine ok_bind (closureComplete_ok cfg.people (fun _ ↦ True) ⟨hs, trivial⟩) fun complete t ht ↦ ?_
  cases complete with
  | false => exact ok_pure rest_stable ht.1.rest
  | true => exact closureFinish_ok ⟨ht.1, fun p ↦ (ht.2 rfl).2 p (mem_finRange p)⟩

theorem cancelClosure_ok (hs : c ∈ closing s.history) :
    (cancelClosure c).Ok (closureDiscipline cfg) c.socket (fun _ ↦ Rest c) s := by
  refine ok_bind (settle_ok hs) fun _ t ht ↦ ?_
  refine ok_bind (rest_ok (transcriptAppend_takes (by decide) _ _ _ _) ht) fun _ t ht ↦ ?_
  refine ok_bind (rest_ok (transcriptAppend_takes (by decide) _ _ _ _) ht) fun _ t ht ↦ ?_
  exact rest_ok (markActivity_takes (by decide)) ht

/-! ## Taking part in a vote -/

/-- A handler that is allowed to take part in a vote finds nobody else at it. -/
theorem Idle.closing_eq_nil (hs : Idle c s) (hallowed : OneAtATime c.socket s t)
    (ht : t.history = s.history ++ new) (he : e ∈ new) (hkind : e.kind = .ballot) :
    closing s.history = [] := by
  refine eq_nil_iff_forall_not_mem.mpr fun c' hc' ↦ ?_
  refine hs.not_closing c' hc' (hallowed (fun hballots ↦ ?_) c' hc')
  rw [ht, ballots_append_eq] at hballots
  exact hballots e he hkind

theorem Idle.takes_part (hs : Idle c s) (hnone : closing s.history = [])
    (ht : t.history = s.history ++ new) (hnew : ∀ e ∈ new, e.connection = c ∧ e.kind = .ballot)
    (he : e ∈ new) : c ∈ closing t.history ∧ ∀ c' ∈ closing t.history, c' = c := by
  rw [ht]
  refine ⟨mem_closing.mpr ⟨⟨e, mem_append_right _ he, hnew e he⟩, fun hclosed ↦ ?_⟩,
    fun c' hc' ↦ ?_⟩
  · rcases mem_append.mp hclosed with hclosed | hclosed
    · exact (hs _ hclosed rfl).2 rfl
    · cases (hnew _ hclosed).2
  obtain ⟨⟨e', he', hec, hkind⟩, hclosed⟩ := mem_closing.mp hc'
  rcases mem_append.mp he' with he' | he'
  · have := mem_closing.mpr ⟨⟨e', he', hec, hkind⟩, fun h ↦ hclosed (mem_append_left _ h)⟩
    rw [hnone] at this
    cases this
  · exact hec.symm.trans (hnew e' he').1

theorem ends_ballot (hkind : e.kind = .ballot) (n : Nat) : ¬ e.ends n := by
  intro hn
  rw [kind_of_ends hn] at hkind
  cases hkind

/-- Whoever opens a proposal when nobody is at the vote is alone with it. -/
theorem Idle.closing_propose (hidle : Idle c s) (hnone : closing s.history = []) (now : Nat) :
    c ∈ closing (s.propose c now).history ∧ ∀ c' ∈ closing (s.propose c now).history, c' = c :=
  hidle.takes_part hnone rfl (fun _ he ↦ kind_opening he) (mem_opening.mpr (.inl rfl))

theorem mem_history_propose {now : Nat} :
    e ∈ (s.propose c now).history ↔ e ∈ s.history ∨ e ∈ s.opening c now :=
  mem_append

theorem ClosureInv.propose (hs : ClosureInv s) (hidle : Idle c s) (hnone : closing s.history = [])
    (hsaid : c.Says true) (now : Nat) : ClosureInv (s.propose c now) := by
  obtain ⟨hclosing, halone⟩ := hidle.closing_propose hnone now
  refine ⟨hs.agreed.append fun e he ↦ ends_ballot (kind_opening he).2, fun c₁ c₂ h₁ h₂ ↦ ?_,
    fun _ ↦ ⟨c, _, mem_history_propose.mpr (.inr (mem_opening.mpr (.inl rfl)))⟩,
    fun c' n roll hmem ↦ ?_, fun p hp ↦ ?_, fun c' n close hmem ↦ ?_, fun e he n hn ↦ ?_,
    fun hnone' ↦ ?_⟩
  · exact (halone c₁ h₁).trans (halone c₂ h₂).symm
  · rcases mem_history_propose.mp hmem with hmem | hmem
    · have := (hs.roll c' n roll hmem).1
      exact ⟨this.trans (Nat.le_succ _), fun hn ↦ absurd this (by simp [hn, Hub.propose])⟩
    · rcases mem_opening.mp hmem with h | ⟨-, h⟩ <;> cases h
      exact ⟨Nat.le_refl _, fun _ p hp ↦ (mem_filter.mp hp).2⟩
  · simp only [Hub.propose] at hp
    split at hp
    · rename_i hcounted
      rw [Bool.and_eq_true, decide_eq_true_eq] at hcounted
      obtain ⟨hcounted, rfl⟩ := hcounted
      exact ⟨c, rfl, mem_history_propose.mpr (.inr (mem_opening.mpr (.inr ⟨hcounted, rfl⟩)))⟩
    · cases hp
  · rcases mem_history_propose.mp hmem with hmem | hmem
    · exact (hs.voted c' n close hmem).imp_left (·.trans (Nat.le_succ _))
    · rcases mem_opening.mp hmem with h | ⟨-, h⟩ <;> cases h
      exact ⟨Nat.le_refl _, hsaid⟩
  · rcases mem_history_propose.mp he with he | he
    · exact (hs.ended e he n hn).trans (Nat.le_succ _)
    · exact absurd hn (ends_ballot (kind_opening he).2 n)
  · rw [hnone'] at hclosing
    cases hclosing

/-- Nothing has been noted about a proposal that has just been opened. -/
theorem deciding_propose (hs : ClosureInv s) (hidle : Idle c s) (hnone : closing s.history = [])
    (now : Nat) : Deciding c (s.propose c now) := by
  refine ⟨(hidle.closing_propose hnone now).1, rfl, fun _ ↦ ⟨fun e he hn ↦ ?_, fun c' hmem ↦ ?_⟩,
    fun n hmem ↦ ?_⟩
  · rcases mem_history_propose.mp he with he | he
    · exact absurd (hs.ended e he _ hn) (Nat.not_succ_le_self _)
    · exact ends_ballot (kind_opening he).2 _ hn
  · rcases mem_history_propose.mp hmem with hmem | hmem
    · exact absurd (hs.voted c' _ _ hmem).1 (Nat.not_succ_le_self _)
    · rcases mem_opening.mp hmem with h | ⟨-, h⟩ <;> cases h
  · rcases mem_history_propose.mp hmem with hmem | hmem
    · exact hidle.harmless n hmem
    · rcases mem_opening.mp hmem with h | ⟨-, h⟩ <;> cases h

/-- Whoever votes when nobody is at the vote is alone with it. -/
theorem Idle.closing_vote (hidle : Idle c s) (hnone : closing s.history = []) (close : Bool) :
    c ∈ closing (s.vote c close).history ∧ ∀ c' ∈ closing (s.vote c close).history, c' = c :=
  hidle.takes_part hnone
    (show (s.vote c close).history = s.history ++ [.voted c s.closure.proposals close] from rfl)
    (by simp [Event.connection, Event.kind]) (mem_singleton_self _)

theorem mem_history_vote {close : Bool} :
    e ∈ (s.vote c close).history ↔ e ∈ s.history ∨ e = .voted c s.closure.proposals close := by
  rw [← mem_singleton]
  exact mem_append

theorem ClosureInv.vote (hs : ClosureInv s) (hidle : Idle c s) (hnone : closing s.history = [])
    (hactive : s.closure.active = true) {close : Bool} (hsaid : c.Says close) :
    ClosureInv (s.vote c close) := by
  obtain ⟨hclosing, halone⟩ := hidle.closing_vote hnone close
  refine ⟨hs.agreed.append (by simp [Event.ends]), fun c₁ c₂ h₁ h₂ ↦ ?_, fun _ ↦ ?_,
    fun c' n roll hmem ↦ ?_, fun p hp ↦ ?_, fun c' n close' hmem ↦ ?_, fun e he n hn ↦ ?_,
    fun hnone' ↦ ?_⟩
  · exact (halone c₁ h₁).trans (halone c₂ h₂).symm
  · obtain ⟨c', roll, hmem⟩ := hs.opened hactive
    exact ⟨c', roll, mem_history_vote.mpr (.inl hmem)⟩
  · exact hs.roll c' n roll ((mem_history_vote.mp hmem).resolve_right nofun)
  · by_cases hpc : p = c.person
    · subst hpc
      cases close with
      | true => exact ⟨c, rfl, mem_history_vote.mpr (.inr rfl)⟩
      | false => simp [Hub.vote] at hp
    · simp only [Hub.vote, Function.update_of_ne hpc] at hp
      obtain ⟨v, hv, hmem⟩ := hs.votes p hp
      exact ⟨v, hv, mem_history_vote.mpr (.inl hmem)⟩
  · rcases mem_history_vote.mp hmem with hmem | hmem
    · exact hs.voted c' n close' hmem
    · cases hmem
      exact ⟨Nat.le_refl _, hsaid⟩
  · rcases mem_history_vote.mp he with he | rfl
    · exact hs.ended e he n hn
    · exact absurd hn (ends_ballot rfl n)
  · rw [hnone'] at hclosing
    cases hclosing

/-- A vote to close leaves the proposal as open as it was. -/
theorem deciding_vote (hs : ClosureInv s) (hidle : Idle c s) (hnone : closing s.history = [])
    (hactive : s.closure.active = true) : Deciding c (s.vote c true) := by
  obtain ⟨hends, hopposed⟩ := hs.idle hnone hactive
  refine ⟨(hidle.closing_vote hnone true).1, hactive, fun _ ↦ ⟨fun e he hn ↦ ?_,
    fun c' hvoted hsent ↦ ?_⟩, fun n hmem ↦ ?_⟩
  · rcases mem_history_vote.mp he with he | rfl
    · exact hends e he hn
    · exact ends_ballot rfl _ hn
  · have hvoted := (mem_history_vote.mp hvoted).resolve_right nofun
    exact hopposed c' hvoted ((mem_history_vote.mp hsent).resolve_right nofun)
  · exact hidle.harmless n ((mem_history_vote.mp hmem).resolve_right nofun)

theorem openClosure_ok (now : Nat) (hsaid : c.Says true) (hs : Idle c s) :
    (openClosure c now).Ok (closureDiscipline cfg) c.socket
      (fun opened s ↦ if opened then Deciding c s else Idle c s) s := by
  have hstable (opened : Bool) : (closureDiscipline cfg).Stable c.socket
      fun s ↦ if opened then Deciding c s else Idle c s := by
    cases opened with
    | true => exact deciding_stable
    | false => exact idle_stable
  refine ok_atomic idle_stable hstable hs fun i t ht hinv hallowed ↦ ?_
  split
  · exact ⟨hinv, (effect_self : Effect c Calm t t).guar_of_harmless ht.harmless, ht⟩
  rename_i hactive
  rw [if_neg hactive] at hallowed
  have hnone := ht.closing_eq_nil hallowed rfl (mem_opening.mpr (.inl rfl)) rfl
  refine ⟨hinv.propose ht hnone hsaid now, ⟨_, rfl, fun e he ↦ congrArg _ (kind_opening he).1,
    fun hballot ↦ ?_⟩, deciding_propose hinv ht hnone now⟩
  exact absurd rfl (hballot _ (mem_opening.mpr (.inl rfl)))

theorem castVote_ok {close : Bool} (hsaid : c.Says close) (reason : Bytes) (hs : Idle c s) :
    (castVote c close reason).Ok (closureDiscipline cfg) c.socket
      (fun cast s ↦ if cast.isSome then
        if close then Deciding c s else c ∈ closing s.history else Idle c s) s := by
  have hstable (cast : Option (Bytes × Nat)) : (closureDiscipline cfg).Stable c.socket
      fun s ↦ if cast.isSome then
        if close then Deciding c s else c ∈ closing s.history else Idle c s := by
    cases cast with
    | none => exact idle_stable
    | some _ =>
      cases close with
      | true => exact deciding_stable
      | false => exact closing_stable
  refine ok_atomic idle_stable hstable hs fun i t ht hinv hallowed ↦ ?_
  split
  · exact ⟨hinv, (effect_self : Effect c Calm t t).guar_of_harmless ht.harmless, ht⟩
  rename_i hcond
  rw [if_neg hcond] at hallowed
  have hactive : t.closure.active = true := by
    simp only [Bool.or_eq_true, Bool.not_eq_true', not_or, Bool.not_eq_false] at hcond
    exact hcond.1
  have hnone := ht.closing_eq_nil hallowed rfl (mem_singleton_self _) rfl
  refine ⟨hinv.vote ht hnone hactive hsaid, ⟨_, rfl, by simp [Event.connection],
    fun hballot ↦ ?_⟩, ?_⟩
  · exact absurd rfl (hballot _ (mem_singleton_self _))
  cases close with
  | true => exact deciding_vote hinv ht hnone hactive
  | false => exact (ht.closing_vote hnone false).1

/-! ## The lines -/

theorem eq_append_of_starts {word : String} {line : Bytes} (h : starts word line = true) :
    line = Bytes.ofAscii word ++ line.drop (Bytes.ofAscii word).length := by
  obtain ⟨rest, rfl⟩ := isPrefixOf_iff_prefix.mp h
  rw [drop_left]

/-- How the commands about the end of a conversation are spelled. -/
def Command.Spelled (line : Bytes) : Command → Prop
  | .endPropose reason => line = Bytes.ofAscii "END_PROPOSE " ++ reason
  | .endVote vote => line = Bytes.ofAscii "END_VOTE " ++ vote
  | _ => True

theorem parse_spelled (line : Bytes) : (Command.parse line).Spelled line := by
  rw [Command.parse]
  repeat' refine iteInduction (motive := Command.Spelled line) (fun hstart ↦ ?_) fun _ ↦ ?_
  all_goals first | exact trivial | exact eq_append_of_starts hstart

theorem says_of_propose {reason : Bytes} (h : c.command = some (.endPropose reason)) :
    c.Says true := by
  obtain ⟨line, hline, hparse⟩ := Option.map_eq_some_iff.mp h
  have hspelled := parse_spelled (CString.text line)
  rw [hparse] at hspelled
  exact ⟨_, Option.mem_map.mpr ⟨line, hline, rfl⟩, reason, .inl hspelled⟩

theorem says_of_vote {vote : Bytes} {close : Bool} (h : c.command = some (.endVote vote))
    (hvote : closeVote vote = some close) : c.Says close := by
  obtain ⟨line, hline, hparse⟩ := Option.map_eq_some_iff.mp h
  have hspelled : CString.text line = Bytes.ofAscii "END_VOTE " ++ vote := by
    have hspelled := parse_spelled (CString.text line)
    rwa [hparse] at hspelled
  refine ⟨_, Option.mem_map.mpr ⟨line, hline, rfl⟩, ?_⟩
  rw [hspelled]
  rw [closeVote] at hvote
  split at hvote
  · rename_i hclose
    obtain rfl := Option.some.inj hvote
    obtain ⟨hstart, hend⟩ := Bool.and_eq_true_iff.mp hclose
    rw [eq_append_of_starts hstart, ← append_assoc]
    obtain hrest | ⟨reason, hrest⟩ : vote.drop 5 = [] ∨ ∃ reason, vote.drop 5 = 32 :: reason := by
      cases hrest : vote.drop 5 with
      | nil => exact .inl rfl
      | cons b reason => exact .inr ⟨reason, by simpa [hrest] using hend⟩
    · refine ⟨[], .inr (.inl ?_)⟩
      change _ ++ vote.drop 5 = _
      rw [hrest]
      rfl
    · refine ⟨reason, .inr (.inr ?_)⟩
      change _ ++ vote.drop 5 = _
      rw [hrest]
      rfl
  split at hvote
  · rename_i hcontinue
    obtain rfl := Option.some.inj hvote
    obtain ⟨hstart, hreason⟩ := Bool.and_eq_true_iff.mp hcontinue
    refine ⟨vote.drop 9, by simpa using hreason, ?_⟩
    rw [eq_append_of_starts hstart]
    rfl
  · cases hvote

/-! ## The handlers -/

/-- A caller that takes no part in the vote is told so. -/
theorem refuse_ok {line : String} (hs : Idle c s) :
    (reply c line).Ok (closureDiscipline cfg) c.socket (fun _ ↦ Rest c) s :=
  (idle_ok (reply_takes (by decide) _) hs).mono fun _ _ ↦ Idle.rest

theorem closurePropose_ok {reason : Bytes} (hcommand : c.command = some (.endPropose reason))
    (hasTurn : Bool) (hs : Idle c s) :
    (closurePropose c reason hasTurn).Ok (closureDiscipline cfg) c.socket (fun _ ↦ Rest c) s := by
  rw [closurePropose]
  refine ok_bind (idle_ok time_takes hs) fun now t ht ↦ ?_
  split
  · exact refuse_ok ht
  split
  · exact refuse_ok ht
  refine ok_bind (openClosure_ok now (says_of_propose hcommand) ht) fun opened t ht ↦ ?_
  cases opened with
  | false => exact refuse_ok ht
  | true =>
    refine ok_bind (deciding_ok (look_takes _) ht) fun _ t ht ↦ ?_
    refine ok_bind (deciding_ok (transcriptAppend_takes (by decide) _ _ _ _) ht) fun _ t ht ↦ ?_
    exact ok_bind (deciding_ok (send_takes (by decide) _) ht) fun _ t ht ↦ closeIfComplete_ok ht

theorem closureVote_ok {vote : Bytes} (hcommand : c.command = some (.endVote vote))
    (hs : Idle c s) :
    (closureVote c vote).Ok (closureDiscipline cfg) c.socket (fun _ ↦ Rest c) s := by
  rw [closureVote]
  split
  · exact refuse_ok hs
  rename_i close hvote
  refine ok_bind (castVote_ok (says_of_vote hcommand hvote) _ hs) fun cast t ht ↦ ?_
  cases cast with
  | none => exact refuse_ok ht
  | some cast =>
    cases close with
    | true =>
      refine ok_bind (deciding_ok (transcriptAppend_takes (by decide) _ _ _ _) ht)
        fun _ t ht ↦ ?_
      exact ok_bind (deciding_ok (send_takes (by decide) _) ht) fun _ t ht ↦ closeIfComplete_ok ht
    | false =>
      refine ok_bind (closing_ok (transcriptAppend_takes (by decide) _ _ _ _) ht)
        fun _ t ht ↦ ?_
      exact ok_bind (closing_ok (send_takes (by decide) _) ht) fun _ t ht ↦ cancelClosure_ok ht

theorem serveLine_ok (hs : Idle c s) :
    (serveLine c).Ok (closureDiscipline cfg) c.socket (fun _ ↦ Rest c) s := by
  by_cases hend : c.isEnd
  · rw [Connection.isEnd] at hend
    rw [serveLine]
    split at hend
    · rename_i reason hreason
      rw [hreason]
      exact ok_bind (idle_ok (checkTurn_takes (by decide)) hs) fun hasTurn t ht ↦
        closurePropose_ok hreason hasTurn ht
    · rename_i vote hvote
      rw [hvote]
      exact ok_bind (idle_ok (checkTurn_takes (by decide)) hs) fun _ t ht ↦ closureVote_ok hvote ht
    · cases hend
  · exact (idle_ok (serveLine_takes (by decide) (by decide) (by decide) (by decide) (by decide)
      (by decide) (by simpa using hend) (fun _ ↦ (by decide)) fun _ ↦
        ⟨by decide, by decide⟩) hs).mono fun _ _ ↦ Idle.rest

theorem handleConnection_ok (hs : Idle c s) :
    (handleConnection c).Ok (closureDiscipline cfg) c.socket (fun _ _ ↦ True) s := by
  refine ok_bind (idle_ok markSeen_takes hs) fun _ t ht ↦ ok_bind (serveLine_ok ht) fun _ t ht ↦ ?_
  refine ok_atomic rest_stable (fun _ ↦ Discipline.stable_true _ _) ht fun i t ht hinv _ ↦ ?_
  have h : Effect c Calm t (t.note (.closed c)) :=
    effect_note (.closed c) rfl (by simp [Calm, Event.kind]) nofun rfl rfl rfl rfl
  exact ⟨hinv.rest ht h, ht.guar h, trivial⟩

end

/-! ## The result -/

theorem closureInv_boot (restored : Name) (activity : Option Int) (logTime : Log → Nat) :
    ClosureInv (Hub.boot cfg restored activity logTime) := by
  refine ⟨⟨?_, ?_⟩, nofun, nofun, nofun, ?_, nofun, nofun, nofun⟩ <;> simp [Hub.boot]

/-- **In every interleaving in which proposals are opened and votes entered one handler at a time, a
proposal leads to at most one end of the conversation, and only with the votes of all who were
online when it was opened and against no accepted vote to continue.** -/
theorem closure_agreed (restored : Name) (activity : Option Int) (logTime : Log → Nat)
    (acts : List (Act (Call cfg) Env))
    (hacts : System.Along connectionThread OneAtATime ⟨Hub.boot cfg restored activity logTime, []⟩
      acts) :
    ClosureAgreed ((Hub.boot cfg restored activity logTime).after acts).history := by
  refine ((closureDiscipline cfg).run_inv (closureInv_boot restored activity logTime)
    (fun k call ↦ ?_) hacts).agreed
  exact handleConnection_ok (c := ⟨k, call.1, call.2⟩) nofun

namespace small

/-- Bob and carol drop by, and alice proposes to end the conversation. -/
def proposed : List (Act (Call small) Env) :=
  [connects bob none] ++ goesOn 0 2 ++ [connects carol none] ++ goesOn 1 2 ++
    [connects alice (some "END_PROPOSE that was it")] ++ goesOn 2 20

/-- Bob votes to close, and then carol. -/
def votesInTurn : List (Act (Call small) Env) :=
  proposed ++ [connects bob (some "END_VOTE close")] ++ goesOn 3 20 ++
    [connects carol (some "END_VOTE close")] ++ goesOn 4 20

/-- Bob and carol vote to close at the same time. -/
def votesAtOnce : List (Act (Call small) Env) :=
  proposed ++ [connects bob (some "END_VOTE close"), connects carol (some "END_VOTE close")] ++
    goesOn 3 5 ++ goesOn 4 5 ++ goesOn 3 20 ++ goesOn 4 20

end small

theorem closure_agreed_votes_in_turn :
    System.Along connectionThread OneAtATime ⟨small.start, []⟩ small.votesInTurn ∧
      ClosureAgreed (small.start.after small.votesInTurn).history :=
  ⟨by decide +kernel, closure_agreed _ _ _ _ (by decide +kernel)⟩

/-- **A run in which a proposal ends the conversation twice.** -/
theorem double_ending : ¬ ClosureAgreed (small.start.after small.votesAtOnce).history := by
  intro h
  have hbob : ((small.start.after small.votesAtOnce).history[16]?).any (·.ends 1) := by
    decide +kernel
  have hcarol : ((small.start.after small.votesAtOnce).history[20]?).any (·.ends 1) := by
    decide +kernel
  obtain ⟨e, he, hends⟩ := (Option.any_eq_true _ _).mp hbob
  obtain ⟨e', he', hends'⟩ := (Option.any_eq_true _ _).mp hcarol
  exact absurd (h.once 16 20 e e' 1 he he' hends hends') (by decide)

end Noobia.Council
