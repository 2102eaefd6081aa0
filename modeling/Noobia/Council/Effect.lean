import Noobia.Council.Sections

/-!
# What a section does to the history

Whatever a handler does, its sections have this in common: they add to the history and never take
anything back, what they add is their own, and the turn and the vote change only along with a note
that says so.  `Effect c K` is that relation, `K` being the kinds of notes the section may add, and
`Section.effect` says that it describes every section of every handler.
-/

namespace Noobia.Council

open List

open Routine

variable {cfg : Config}

/-- A section of the handler of `c` that adds only notes of the kinds `K`. -/
def Effect (c : Connection cfg) (K : Kind → Prop) (s t : Hub cfg) : Prop :=
  ∃ new : List (Event cfg), t.history = s.history ++ new ∧
    (∀ e ∈ new, e.connection = c ∧ K e.kind) ∧
    ((∀ e ∈ new, e.kind ≠ .move) ∧ t.arbitration = s.arbitration ∧ t.turn = s.turn ∨
      new.filter (fun e ↦ e.kind = .move) = [.moved c s.turn s.arbitration.currentSpeaker] ∧
        t.turn = s.turn + 1) ∧
    ((∀ e ∈ new, e.kind ≠ .ballot ∧ e.kind ≠ .settle) → t.closure = s.closure)

variable {c : Connection cfg} {K : Kind → Prop} {s t : Hub cfg}

/-! ## Building effects -/

theorem effect_silent (hhistory : t.history = s.history)
    (harbitration : t.arbitration = s.arbitration) (hturn : t.turn = s.turn)
    (hclosure : t.closure = s.closure) : Effect c K s t :=
  ⟨[], by rw [hhistory, append_nil], by simp, .inl ⟨by simp, harbitration, hturn⟩,
    fun _ ↦ hclosure⟩

theorem effect_self : Effect c K s s := effect_silent rfl rfl rfl rfl

/-- A section that adds one note and leaves the turn and the vote alone. -/
theorem effect_note (e : Event cfg) (he : e.connection = c) (hK : K e.kind) (hmove : e.kind ≠ .move)
    (hhistory : t.history = s.history ++ [e]) (harbitration : t.arbitration = s.arbitration)
    (hturn : t.turn = s.turn) (hclosure : t.closure = s.closure) : Effect c K s t :=
  ⟨[e], hhistory, by simp [he, hK], .inl ⟨by simp [hmove], harbitration, hturn⟩,
    fun _ ↦ hclosure⟩

theorem effect_turnTo (hK : K .move) (arbitration : Arbitration) :
    Effect c K s (s.turnTo c arbitration) :=
  ⟨[.moved c s.turn s.arbitration.currentSpeaker], rfl, by simp [Event.connection, Event.kind, hK],
    .inr ⟨by simp [Event.kind], rfl⟩, fun _ ↦ rfl⟩

variable {K' : Kind → Prop}

theorem Effect.mono (h : Effect c K s t) (hK : ∀ k, K k → K' k) : Effect c K' s t := by
  obtain ⟨new, hhistory, hown, hmove, hclosure⟩ := h
  exact ⟨new, hhistory, fun e he ↦ ⟨(hown e he).1, hK _ (hown e he).2⟩, hmove, hclosure⟩

/-- A section that may not write the turn leaves it alone. -/
theorem Effect.turn (h : Effect c K s t) (hK : ¬ K .move) :
    t.arbitration = s.arbitration ∧ t.turn = s.turn := by
  obtain ⟨new, -, hown, hmove | hmove, -⟩ := h
  · exact hmove.2
  have hmem : Event.moved c s.turn s.arbitration.currentSpeaker ∈ new :=
    mem_of_mem_filter (hmove.1 ▸ mem_singleton_self _)
  exact absurd (hown _ hmem).2 hK

theorem history_settle (s : Hub cfg) (speaker : Bytes) : (s.settle c speaker).history =
    s.history ++ [.settled c, .moved c s.turn s.arbitration.currentSpeaker] := by
  simp [Hub.settle, Hub.turnTo, Hub.note]

theorem effect_settle (hmove : K .move) (hsettle : K .settle) (speaker : Bytes) :
    Effect c K s (s.settle c speaker) :=
  ⟨_, history_settle s speaker, by simp [Event.connection, Event.kind, hmove, hsettle],
    .inr ⟨by simp [Event.kind], rfl⟩, fun h ↦ absurd rfl (h (.settled c) (by simp)).2⟩

theorem mem_opening {now : Nat} {e : Event cfg} : e ∈ s.opening c now ↔
    e = .opened c (s.closure.proposals + 1) (cfg.people.filter (s.counted now)) ∨
      s.counted now c.person = true ∧ e = .voted c (s.closure.proposals + 1) true := by
  rw [Hub.opening, mem_cons]
  split
  · rename_i hcounted
    simp [hcounted]
  · rename_i hcounted
    simp [hcounted]

theorem kind_opening {now : Nat} {e : Event cfg} (he : e ∈ s.opening c now) :
    e.connection = c ∧ e.kind = .ballot := by
  rcases mem_opening.mp he with rfl | ⟨-, rfl⟩
  · exact ⟨rfl, rfl⟩
  · exact ⟨rfl, rfl⟩

theorem effect_propose (hballot : K .ballot) (now : Nat) : Effect c K s (s.propose c now) := by
  refine ⟨s.opening c now, rfl, fun e he ↦ ?_, .inl ⟨fun e he ↦ ?_, rfl, rfl⟩, fun h ↦ ?_⟩
  · rw [(kind_opening he).2]
    exact ⟨(kind_opening he).1, hballot⟩
  · rw [(kind_opening he).2]
    nofun
  · exact absurd rfl (h _ mem_cons_self).1

theorem effect_vote (hballot : K .ballot) (close : Bool) : Effect c K s (s.vote c close) :=
  ⟨[.voted c s.closure.proposals close], rfl, by simp [Event.connection, Event.kind, hballot],
    .inl ⟨by simp [Event.kind], rfl, rfl⟩, fun h ↦ absurd rfl (h _ (mem_singleton_self _)).1⟩

/-! ## Every section has such an effect -/

/-- What happens to the lease leaves no note in the history. -/
theorem Section.effect {i : Env} (h : Section c K' i s t)
    (hK : ∀ k, k.isNoted = true → K' k → K k) : Effect c K s t := by
  cases h with
  | idle => exact effect_self
  | seen | online | measure | mark | markFile | release => exact effect_silent rfl rfl rfl rfl
  | check h =>
    exact effect_note (.checked c s.turn (s.arbitration.canSpeak c.name)) rfl
      (hK _ rfl h) nofun rfl rfl rfl rfl
  | exchange peer command ok h =>
    exact effect_note (.exchanged c peer command ok) rfl (hK _ rfl h) nofun rfl rfl rfl rfl
  | send line h => exact effect_note (.sent c line) rfl (hK _ rfl h) nofun rfl rfl rfl rfl
  | close h => exact effect_note (.closed c) rfl (hK _ rfl h) nofun rfl rfl rfl rfl
  | append log record proposal h =>
    obtain ⟨stamp, speaker, event, message⟩ := record
    refine effect_note (.recorded c log _ proposal) rfl (hK _ ?_ h) ?_ rfl rfl rfl rfl
    · cases event <;> rfl
    · cases event <;> nofun
  | move arbitration h => exact effect_turnTo (hK _ rfl h) arbitration
  | settle speaker hmove h => exact effect_settle (hK _ rfl hmove) (hK _ rfl h) speaker
  | propose now h => exact effect_propose (hK _ rfl h) now
  | vote close h => exact effect_vote (hK _ rfl h) close
  | reserve now =>
    rw [Hub.reserve]
    split
    · exact effect_silent rfl rfl rfl rfl
    · exact effect_silent rfl rfl rfl rfl

/-- What a routine does to the history, from the list of what its sections do. -/
theorem effect_of_takes {α : Type} {m : Handler cfg α}
    (hm : m.Takes (Section c K')) (hK : ∀ k, k.isNoted = true → K' k → K k) :
    m.Steps (Effect c K) :=
  hm.steps fun _ _ _ h ↦ h.effect hK

end Noobia.Council
