import Noobia.Council.Agent
import Noobia.Council.Timed
import Noobia.Lib.Amid

/-!
# Several arbiters

An agent that cannot reach the first arbiter goes on to the next, so there may be several hubs that
accept initiations.  Each has a lease of its own.  A lease gets from one hub to another only with a
message that is delivered there; and a message that is addressed to one participant is delivered to
nobody else.  So when an arbiter has accepted an initiation and its answer is lost, the agent goes
on to an arbiter that knows nothing of it: `two_conversations` is such a run.

A `Fleet` is what happens at the hubs that share a book, from one start of each to the next, and the
agents that call them.  The hubs have nothing in common but the time, so the interleavings of their
handlers are independent of each other.  What there is to rely on is the order in which the agents
try the arbiters: whoever is served by a later arbiter has been let down by the earlier ones.
`one_conversation` says that this is enough where answers are not lost and where an arbiter that
lets an agent down is out for longer than a lease.
-/

namespace Noobia.Council

open List

open Routine

variable {book : List Contact}

/-! ## The agents -/

/-- A run of `council-agent initiate`: the message, and what comes back from each of the commands
that are sent, if anything does. -/
structure AgentRun where
  message : Bytes
  answers : Nat → Option Bytes

namespace AgentRun

/-- The rounds of the run. -/
def rounds (book : List Contact) (r : AgentRun) : List (AgentRound book) :=
  ((agentMain book (Bytes.ofAscii "initiate") r.message r.answers).map Prod.snd).getD []

/-- What comes back from the last command of a round. -/
def heard (book : List Contact) (r : AgentRun) (round : Nat) : Option Bytes :=
  r.answers ((((r.rounds book).take (round + 1)).flatMap AgentRound.commands).length - 1)

end AgentRun

/-- How an agent goes on after an arbiter of this priority and so many commands: to the next
arbiter, and from there on only if nothing has come back. -/
def GoesOn (book : List Contact) (answers : Nat → Option Bytes) :
    Nat → Nat → List (AgentRound book) → Prop
  | _, _, [] => True
  | after, sent, round :: rounds =>
    nextArbiter book after = some round.arbiter ∧
      (rounds ≠ [] → answers (sent + round.commands.length - 1) = none) ∧
      GoesOn book answers book[round.arbiter].arbiterPriority (sent + round.commands.length) rounds

theorem goesOn_of_loop {operation message : Bytes} {answers : Nat → Option Bytes}
    {fuel priority sent : Nat} {exit : AgentExit book} {rounds : List (AgentRound book)}
    (h : agentLoop book operation message answers fuel priority sent = some (exit, rounds)) :
    GoesOn book answers priority sent rounds := by
  induction fuel generalizing priority sent exit rounds with
  | zero => cases h
  | succ fuel ih =>
    rw [agentLoop] at h
    cases hnext : nextArbiter book priority with
    | none =>
      rw [hnext] at h
      obtain rfl := (Prod.mk.inj (Option.some.inj h)).2
      trivial
    | some arbiter =>
      rw [hnext] at h
      have hlast {commands : List Bytes} {exit' : AgentExit book}
          (h : some (exit', [⟨arbiter, commands⟩]) = some (exit, rounds)) :
          GoesOn book answers priority sent rounds := by
        obtain rfl := (Prod.mk.inj (Option.some.inj h)).2
        exact ⟨hnext, fun hne ↦ absurd rfl hne, trivial⟩
      have hmore (commands : List Bytes) (hnone : answers (sent + commands.length - 1) = none)
          (h : ((agentLoop book operation message answers fuel book[arbiter].arbiterPriority
            (sent + commands.length)).map fun r ↦ (r.1, ⟨arbiter, commands⟩ :: r.2)) =
              some (exit, rounds)) :
          GoesOn book answers priority sent rounds := by
        obtain ⟨⟨exit', rounds'⟩, hloop, heq⟩ := Option.map_eq_some_iff.mp h
        obtain rfl := (Prod.mk.inj heq).2
        exact ⟨hnext, fun _ ↦ hnone, ih hloop⟩
      dsimp only at h
      split at h
      · exact hmore [Bytes.ofAscii "BUSY"] ‹_› h
      split at h
      · exact hlast h
      split at h
      · exact hlast h
      split at h
      · exact hlast h
      split at h
      · exact hlast h
      · exact hmore [Bytes.ofAscii "BUSY", initiateCommand message] ‹_› h

theorem AgentRun.goesOn (r : AgentRun) : GoesOn book r.answers 0 0 (r.rounds book) := by
  rw [AgentRun.rounds]
  cases h : agentMain book (Bytes.ofAscii "initiate") r.message r.answers with
  | none => trivial
  | some result => exact goesOn_of_loop h

section

variable {answers answers' : Nat → Option Bytes} {after sent sent' j : Nat}
  {rounds rounds' : List (AgentRound book)}

theorem GoesOn.arbiter_eq (h : GoesOn book answers after sent rounds)
    (h' : GoesOn book answers' after sent' rounds') {x y : AgentRound book}
    (hx : rounds[j]? = some x) (hy : rounds'[j]? = some y) : x.arbiter = y.arbiter := by
  induction rounds generalizing after sent sent' j rounds' with
  | nil => simp at hx
  | cons round rounds ih =>
    cases rounds' with
    | nil => simp at hy
    | cons round' rounds' =>
      have hsame : round.arbiter = round'.arbiter := Option.some.inj (h.1.symm.trans h'.1)
      cases j with
      | zero =>
        obtain rfl := Option.some.inj hx
        obtain rfl := Option.some.inj hy
        exact hsame
      | succ j =>
        rw [getElem?_cons_succ] at hx hy
        have hrest := h'.2.2
        simp only [← hsame] at hrest
        exact ih h.2.2 hrest hx hy

/-- Nothing came back in a round that was not the last. -/
theorem GoesOn.answers_eq_none (h : GoesOn book answers after sent rounds)
    (hj : j + 1 < rounds.length) :
    answers (sent + ((rounds.take (j + 1)).flatMap AgentRound.commands).length - 1) = none := by
  induction rounds generalizing after sent j with
  | nil => cases hj
  | cons round rounds ih =>
    cases j with
    | zero =>
      have hne : rounds ≠ [] := by
        rintro rfl
        simp at hj
      simpa using h.2.1 hne
    | succ j =>
      have hrest := ih h.2.2 (by simpa using hj)
      rwa [take_succ_cons, flatMap_cons, length_append, ← Nat.add_assoc]

end

theorem AgentRun.heard_eq_none {r : AgentRun} {j : Nat} (hj : j + 1 < (r.rounds book).length) :
    r.heard book j = none := by
  have h := r.goesOn.answers_eq_none hj
  rwa [Nat.zero_add] at h

/-! ## One hub -/

section

variable {cfg : Config} {s t : Hub cfg} {c c' : Connection cfg} {K : Kind → Prop} {i : Env}
  {now : Nat}

/-- The hub has accepted the initiation of `c`, which is to say recorded it or marked its lease. -/
def Accepts (s : Hub cfg) (c : Connection cfg) (now : Nat) : Prop :=
  c.isInitiate = true ∧
    ((∃ record proposal, .recorded c .transcript record proposal ∈ s.history ∧
      record.event = .initiate ∧ record.stamp = now) ∨ .marked c now ∈ s.leases)

/-- A record is added by its own handler, with the time of the section. -/
theorem Section.recorded (h : Section c K i s t) {log : Log} {record : Record} {proposal : Nat}
    (hmem : .recorded c' log record proposal ∈ t.history) :
    .recorded c' log record proposal ∈ s.history ∨ c' = c ∧ record.stamp = i.now := by
  have hnone (new : List (Event cfg)) (hhistory : t.history = s.history ++ new)
      (hnew : .recorded c' log record proposal ∉ new) :
      .recorded c' log record proposal ∈ s.history := by
    rw [hhistory] at hmem
    exact (mem_append.mp hmem).resolve_right hnew
  cases h with
  | append log' record' proposal' hK hstamp =>
    rcases mem_append.mp hmem with hmem | hmem
    · exact .inl hmem
    · obtain ⟨rfl, -, rfl, -⟩ := Event.recorded.inj (mem_singleton.mp hmem)
      exact .inr ⟨rfl, hstamp⟩
  | settle speaker => exact .inl (hnone _ (history_settle s speaker) (by simp))
  | propose now =>
    refine .inl (hnone (s.opening c now) rfl fun hmem ↦ ?_)
    rcases mem_opening.mp hmem with h | ⟨-, h⟩ <;> cases h
  | reserve now => exact .inl ((s.reserve_spec c now i).1 ▸ hmem)
  | idle | seen | online | measure | mark | markFile | release => exact .inl hmem
  | move => exact .inl (hnone [.moved ..] rfl (by simp))
  | check => exact .inl (hnone [.checked ..] rfl (by simp))
  | exchange => exact .inl (hnone [.exchanged ..] rfl (by simp))
  | send => exact .inl (hnone [.sent ..] rfl (by simp))
  | close => exact .inl (hnone [.closed _] rfl (by simp))
  | vote => exact .inl (hnone [.voted ..] rfl (by simp))

theorem Section.marked (h : Section c K i s t) (hmem : .marked c' now ∈ t.leases) :
    .marked c' now ∈ s.leases ∨ c' = c ∧ i.now = now := by
  cases h.leaseStep with
  | quiet hleases => exact .inl (hleases ▸ hmem)
  | measure _ _ _ _ hleases | release _ _ hleases => exact .inl (by simpa [hleases] using hmem)
  | reserve now _ hreserve =>
    rw [hreserve, (s.reserve_spec c now i).2.1] at hmem
    exact .inl (by simpa using hmem)
  | mark _ _ hleases => simpa [hleases, eq_comm] using hmem

theorem Section.accepts (h : Section c K i s t) (ht : Accepts t c' now) (hs : ¬ Accepts s c' now) :
    c' = c ∧ i.now = now := by
  obtain ⟨hinitiate, ⟨record, proposal, hmem, hevent, hstamp⟩ | hmem⟩ := ht
  · rcases h.recorded hmem with hmem | ⟨hc, hnow⟩
    · exact absurd ⟨hinitiate, .inl ⟨record, proposal, hmem, hevent, hstamp⟩⟩ hs
    · exact ⟨hc, hnow ▸ hstamp⟩
  · exact (h.marked hmem).resolve_left fun hmem ↦ hs ⟨hinitiate, .inr hmem⟩

end

/-- A hub from one start to the next: what it finds when it is started and what happens then, and
for the initiations that reach it the number of the agent they come from and of its round. -/
structure Life (book : List Contact) where
  settings : Config
  restored : Name
  activity : Option Int
  logTime : Log → Nat
  acts : List (Act (Fin book.length × Option Bytes) Env)
  agent : Nat → Nat
  round : Nat → Nat

namespace Life

/-- The hub has the book that all share. -/
abbrev config (l : Life book) : Config := { l.settings with contacts := book }

def start (l : Life book) : Hub l.config := .boot l.config l.restored l.activity l.logTime

def hub (l : Life book) : Hub l.config := l.start.after l.acts

/-- The connections that are made. -/
def connections (l : Life book) : List (Connection l.config) :=
  (l.acts.filterMap System.spawned).zipIdx.map fun (call, socket) ↦ ⟨socket, call.1, call.2⟩

/-- On which socket and when the handlers take their sections. -/
def sections (l : Life book) : List (Nat × Nat) :=
  l.acts.filterMap fun
    | .advance k i => some (k, i.now)
    | .spawn _ => none

/-- What the hub accepts is on one of these connections, and in one of these sections. -/
theorem of_accepts {l : Life book} {c : Connection l.config} {now : Nat}
    (h : Accepts l.hub c now) : c ∈ l.connections ∧ (c.socket, now) ∈ l.sections := by
  have hstart : ¬ Accepts l.start c now := by
    rintro ⟨-, ⟨_, _, hmem, -⟩ | hmem⟩
    · cases hmem
    · cases hmem
  obtain ⟨call, k, i, s, t, hspawned, hmem, hsection, hs, ht⟩ := System.exists_section
    (P := fun s ↦ Accepts s c now) (fun k (call : Call l.config) ↦
      handleConnection_section ⟨k, call.1, call.2⟩) hstart h
  obtain ⟨rfl, rfl⟩ := hsection.accepts ht hs
  refine ⟨mem_map.mpr ⟨(call, k), ?_, rfl⟩, mem_filterMap.mpr ⟨_, hmem, rfl⟩⟩
  exact mem_zipIdx_iff_getElem?.mpr hspawned.getElem?

end Life

/-! ## The fleet -/

/-- The hubs of the contacts of a book and the agents that call them. -/
structure Fleet (book : List Contact) where
  lives : Fin book.length → List (Life book)
  agents : List AgentRun

namespace Fleet

variable (f : Fleet book)

/-- An initiation that has been accepted. -/
structure Initiation where
  arbiter : Fin book.length
  life : Life book
  lived : life ∈ f.lives arbiter
  connection : Connection life.config
  now : Nat
  accepted : Accepts life.hub connection now

variable {f} in
/-- The agent it comes from. -/
def Initiation.agent (x : f.Initiation) : Nat := x.life.agent x.connection.socket

/-- The times are at least as far from each other as a lease is long. -/
def Apart (t t' : Nat) : Prop := t + leaseSeconds ≤ t' ∨ t' + leaseSeconds ≤ t
  deriving Decidable

/-- **There is one conversation at a time.**  No two arbiters accept initiations within 300 seconds
of each other, and no two accept an initiation of the same agent. -/
def OneConversation : Prop :=
  ∀ x y : f.Initiation, (x.arbiter ≠ y.arbiter → Apart x.now y.now) ∧
    (x.agent = y.agent → x.arbiter = y.arbiter)

/-- Initiations come only from agents: each is a command of a round that an agent makes there. -/
def OnlyAgents : Prop :=
  ∀ a, ∀ l ∈ f.lives a, ∀ c ∈ l.connections, c.isInitiate = true →
    ∃ r ∈ f.agents[l.agent c.socket]?, ∃ round ∈ (r.rounds book)[l.round c.socket]?,
      round.arbiter = a ∧ ∃ command ∈ round.commands, c.line = some command
  deriving Decidable

/-- No answer to an initiation is lost: something comes back from each that reaches an arbiter.  And
while one is served, and for 300 seconds before and after, the arbiters that its agent has tried
before are out. -/
def Careful : Prop :=
  ∀ a, ∀ l ∈ f.lives a, ∀ c ∈ l.connections, c.isInitiate = true →
    ∀ r ∈ f.agents[l.agent c.socket]?, r.heard book (l.round c.socket) ≠ none ∧
      ∀ x ∈ l.sections, x.1 = c.socket → ∀ round ∈ (r.rounds book).take (l.round c.socket),
        ∀ l' ∈ f.lives round.arbiter, ∀ y ∈ l'.sections, Apart x.2 y.2
  deriving Decidable

variable {f}

/-- Where an initiation comes from. -/
structure Initiation.From (x : f.Initiation) (r : AgentRun) (visit : AgentRound book) : Prop where
  agent : f.agents[x.agent]? = some r
  round : (r.rounds book)[x.life.round x.connection.socket]? = some visit
  arbiter : visit.arbiter = x.arbiter

theorem OnlyAgents.exists_from (h : f.OnlyAgents) (x : f.Initiation) :
    ∃ r round, x.From r round := by
  obtain ⟨hmem, -⟩ := Life.of_accepts x.accepted
  obtain ⟨r, hr, round, hround, harbiter, -⟩ := h _ _ x.lived _ hmem x.accepted.1
  exact ⟨r, round, hr, hround, harbiter⟩

section

variable {x y : f.Initiation} {r r' : AgentRun} {round round' : AgentRound book}

/-- An initiation in a later round is apart from what happens at an earlier arbiter. -/
theorem Careful.apart (h : f.Careful) (hx : x.From r round) (hy : y.From r' round')
    (hlt : x.life.round x.connection.socket < y.life.round y.connection.socket) :
    Apart y.now x.now := by
  obtain ⟨-, hsection⟩ := Life.of_accepts x.accepted
  obtain ⟨hmem, hsection'⟩ := Life.of_accepts y.accepted
  have hlength := (List.getElem?_eq_some_iff.mp hy.round).1
  -- the agent of the later one has tried the arbiter of the earlier one
  obtain ⟨tried, htried⟩ : ∃ tried, (r'.rounds book)[x.life.round x.connection.socket]? =
      some tried := ⟨_, getElem?_eq_getElem (hlt.trans hlength)⟩
  have harbiter : tried.arbiter = x.arbiter :=
    (r'.goesOn.arbiter_eq r.goesOn htried hx.round).trans hx.arbiter
  have htake : tried ∈ (r'.rounds book).take (y.life.round y.connection.socket) :=
    mem_of_getElem? (by rw [getElem?_take_of_lt hlt]; exact htried)
  exact (h _ _ y.lived _ hmem y.accepted.1 r' hy.agent).2 _ hsection' rfl tried htake x.life
    (harbiter ▸ x.lived) _ hsection

/-- The round in which an initiation is accepted is the last of its agent. -/
theorem Careful.last (h : f.Careful) (hx : x.From r round) :
    (r.rounds book).length = x.life.round x.connection.socket + 1 := by
  obtain ⟨hmem, -⟩ := Life.of_accepts x.accepted
  have hheard := (h _ _ x.lived _ hmem x.accepted.1 r hx.agent).1
  have hlength := (List.getElem?_eq_some_iff.mp hx.round).1
  by_contra hne
  exact hheard (AgentRun.heard_eq_none (by omega))

end

end Fleet

namespace pair

/-- The book that two arbiters share: aria and after it argus. -/
abbrev shared : List Contact :=
  [⟨.snprintf (Bytes.ofAscii "aria"), .ai, 10⟩, ⟨.snprintf (Bytes.ofAscii "argus"), .ai, 20⟩,
    ⟨.snprintf (Bytes.ofAscii "clover"), .ai, 0⟩, ⟨.snprintf (Bytes.ofAscii "dora"), .ai, 0⟩]

/-- An agent has something to say to somebody, and this comes back. -/
def agent (message : String) (answers : List (Option String)) : AgentRun where
  message := Bytes.ofAscii message
  answers k := (answers[k]?.getD none).map Bytes.ofAscii

/-- Somebody's agent asks an arbiter whether there is a conversation and begins one, in the given
round, and the arbiter is done with it at the time `now`. -/
def visited (arbiter who : Fin 4) (message : String) (agent round now : Nat) : Life shared where
  settings := ⟨shared[arbiter].name, true, 60, [], fun _ ↦ []⟩
  restored := .empty
  activity := none
  logTime _ := 0
  acts := .spawn (who, some (Bytes.ofAscii "BUSY")) ::
    List.replicate 7 (.advance 0 { small.noon with now }) ++
    .spawn (who, some (initiateCommand (Bytes.ofAscii message))) ::
    List.replicate 20 (.advance 1 { small.noon with now })
  agent _ := agent
  round _ := round

/-- What an arbiter has answered. -/
def answered {cfg : Config} (s : Hub cfg) : List Bytes :=
  s.history.filterMap fun
    | .sent _ line => some line
    | _ => none

/-- When the initiations were recorded that are in the transcript of an arbiter. -/
def initiated {cfg : Config} (s : Hub cfg) : List Nat :=
  s.history.filterMap fun
    | .recorded _ .transcript record _ =>
      if record.event = .initiate then some record.stamp else none
    | _ => none

/-- Dora begins a conversation at aria.  Hours later aria is out, and clover begins one at argus. -/
def ariaOut : Fleet shared where
  lives a := match a with
    | 0 => [visited 0 3 "clover, hello" 0 0 30000]
    | 1 => [visited 1 2 "dora, hello" 1 1 43200]
    | _ => []
  agents := [agent "clover, hello" [some "IDLE", some "ACCEPTED"],
    agent "dora, hello" [none, some "IDLE", some "ACCEPTED"]]

/-- Clover begins a conversation at aria, but the answer is lost.  So the agent goes on to argus. -/
def answerLost : Fleet shared where
  lives a := match a with
    | 0 => [visited 0 2 "dora, hello" 0 0 43200]
    | 1 => [visited 1 2 "dora, hello" 0 1 43200]
    | _ => []
  agents := [agent "dora, hello" [some "IDLE", none, some "IDLE", some "ACCEPTED"]]

end pair

end Noobia.Council
