import Noobia.Council.Turn
import Noobia.Lib.Alone
import Noobia.Lib.Sites

/-!
# Passing on the turn of somebody who is gone

A handler of `STATUS` finds out who is there.  Then it copies the name of whoever has the turn,
looks whether that participant is online, and if not it passes the turn on.  The turn should then be
taken from the participant that was found offline and from nobody else.

But the copy, the look and the write are three sections, and the write does not look again.  If the
turn has moved on in the meantime it is taken from whoever has it now: `live_turn_stolen` is such a
run.  `status_steals_nothing` says that it cannot happen in any other way: as long as nobody else
writes the turn while a handler of `STATUS` is on its way from the end of its list to its own write,
every turn it passes on is that of the participant whose flag it has read and found off.
-/

namespace Noobia.Council.Status

open List Bytes

open Routine

variable {cfg : Config}

/-! ## The property and the condition -/

/-- The caller asks who is there. -/
def isStatus (c : Connection cfg) : Bool :=
  match c.command with
  | some .status => true
  | _ => false

/-- What is left of `send_status` once it has found `current` offline. -/
def takeTurn (c : Connection cfg) (current : Name) : Handler cfg Unit := do
  match ← passTurn c current with
  | none => return ()
  | some p =>
    announce c p (Bytes.ofAscii "offline:" ++ current.bytes)
    transcriptAppend c .transcript cfg.name .offlineGrant
      (current.bytes ++ Bytes.ofAscii " -> " ++ (cfg.contact p).name.bytes) 0

theorem passOfflineTurn_eq (c : Connection cfg) (current : Name) :
    passOfflineTurn c current =
      holderOnline current >>= fun live ↦ if live then pure () else takeTurn c current :=
  rfl

/-- What is left of the handler of `c` then. -/
def foundOffline (c : Connection cfg) (current : Name) : Handler cfg Unit := do
  takeTurn c current
  networkClose c

/-- The line that ends the list of who is there. -/
def endLine : Bytes := Bytes.ofAscii "END\n"

/-- The handler of `c` has neither written the turn nor closed the connection. -/
def Open (history : List (Event cfg)) (c : Connection cfg) : Prop :=
  ∀ e ∈ history, e.connection = c → e.kind ≠ .move ∧ e.kind ≠ .close
  deriving Decidable

/-- The handlers of `STATUS` that have sent their list and are still on their way. -/
def probing (history : List (Event cfg)) : List (Connection cfg) :=
  history.filterMap fun
    | .sent c line => if isStatus c = true ∧ line = endLine ∧ Open history c then some c else none
    | _ => none

/-- Thread `k` does not write the turn while a handler of `STATUS` other than its own is on its
way. -/
def Unmoved (k : Nat) (s t : Hub cfg) : Prop :=
  t.turn ≠ s.turn → ∀ c ∈ probing s.history, c.socket = k
  deriving Decidable

/-- The handler of `c` has found `current` offline, `Taken k s t` saying that thread `k` has taken a
section from `s` to `t`: there is no such contact, or on its way it has read the flag, which was
off. -/
def FoundOffline (Taken : Nat → Hub cfg → Hub cfg → Prop) (c : Connection cfg) (current : Name) :
    Prop :=
  cfg.find current = none ∨ ∃ p s, cfg.find current = some p ∧ Taken c.socket s s ∧
    c ∈ probing s.history ∧ s.arbitration.currentSpeaker = current ∧ s.online p = false

/-- **Nothing is stolen** by what happens next: if it is a handler of `STATUS` that writes the turn,
then whoever holds it is the participant that this handler has found offline. -/
def NothingStolen (boot : Hub cfg) (acts : List (Act (Call cfg) Env)) (a : Act (Call cfg) Env) :
    Prop :=
  let sys := System.run connectionThread ⟨boot, []⟩ acts
  ∀ (c : Connection cfg) (holder : Name), isStatus c = true →
    .moved c sys.shared.turn holder ∈ (sys.act connectionThread a).shared.history →
      sys.threads[c.socket]? = some (foundOffline c holder) ∧
        FoundOffline (System.Took connectionThread ⟨boot, []⟩ acts) c holder

variable {history new : List (Event cfg)} {c : Connection cfg} {current : Name}
  {Taken : Nat → Hub cfg → Hub cfg → Prop}

theorem mem_probing : c ∈ probing history ↔
    isStatus c = true ∧ .sent c endLine ∈ history ∧ Open history c := by
  rw [probing, mem_filterMap]
  constructor
  · rintro ⟨e, he, hc⟩
    split at hc
    · rename_i c' line
      obtain ⟨⟨hstatus, hline, hopen⟩, hsome⟩ := Option.ite_none_right_eq_some.mp hc
      obtain rfl := Option.some.inj hsome
      exact ⟨hstatus, hline ▸ he, hopen⟩
    · cases hc
  · rintro ⟨hstatus, hsent, hopen⟩
    exact ⟨_, hsent, if_pos ⟨hstatus, rfl, hopen⟩⟩

/-! ## The discipline -/

/-- Every note of a turn is of an earlier one. -/
def TurnsPast (s : Hub cfg) : Prop :=
  ∀ c turn holder, .moved c turn holder ∈ s.history → turn < s.turn

/-- What a handler relies on: nothing is noted in its name, and the turn stays as it is while its
own `STATUS` is on its way. -/
def StatusRely : Nat → Hub cfg → Hub cfg → Prop := TurnStays probing

theorem Open.append (h : Open history c) (hnew : ∀ e ∈ new, e.connection.socket ≠ c.socket) :
    Open (history ++ new) c := by
  intro e he hec
  rcases mem_append.mp he with he | he
  · exact h e he hec
  · exact absurd (congrArg Connection.socket hec) (hnew e he)

/-- What others note does not take a handler off its way. -/
theorem mem_probing_append (hc : c ∈ probing history)
    (hnew : ∀ e ∈ new, e.connection.socket ≠ c.socket) : c ∈ probing (history ++ new) := by
  obtain ⟨hstatus, hsent, hopen⟩ := mem_probing.mp hc
  exact mem_probing.mpr ⟨hstatus, mem_append_left _ hsent, hopen.append hnew⟩

/-- The discipline under which nothing is stolen, in an interleaving whose sections are `Taken`. -/
def statusDiscipline (Taken : Nat → Hub cfg → Hub cfg → Prop) : Discipline (Hub cfg) where
  Inv := TurnsPast
  Allowed k s t := Unmoved k s t ∧ Taken k s t
  Guar := TurnGuar
  Rely := StatusRely
  rely_refl := .refl
  rely_trans := .trans fun _ _ _ ↦ mem_probing_append
  spread hne _ hallowed hguar := hguar.stays hne hallowed.1

/-! ## Sections -/

/-- Where thread `k` takes a section: if it writes the turn for a `STATUS`, then it has found the
holder offline. -/
def Site (Taken : Nat → Hub cfg → Hub cfg → Prop) (k : Nat) : Handler cfg Unit → Hub cfg → Prop
  | .ret _, _ => True
  | .step next rest, t => ∀ i (c : Connection cfg) holder, isStatus c = true →
    .moved c t.turn holder ∈ (next i t).history →
      c.socket = k ∧ .step next rest = foundOffline c holder ∧ FoundOffline Taken c holder

/-- A section that does not write the turn for a `STATUS`. -/
def Harmless (s t : Hub cfg) : Prop :=
  ∀ (c : Connection cfg) holder, isStatus c = true → .moved c s.turn holder ∈ t.history →
    .moved c s.turn holder ∈ s.history

theorem site_of_harmless {k : Nat} (next : Env → Hub cfg → Hub cfg)
    (rest : Env → Hub cfg → Handler cfg Unit) (t : Hub cfg) (ht : TurnsPast t)
    (h : ∀ i, Harmless t (next i t)) : Site Taken k (.step next rest) t := by
  intro i c holder hstatus hmoved
  exact absurd (ht c _ holder (h i c holder hstatus hmoved)) (Nat.lt_irrefl _)

variable {c : Connection cfg} {K : Kind → Prop} {s t : Hub cfg}

theorem TurnsPast.effect (hs : TurnsPast s) (h : Effect c K s t) : TurnsPast t := by
  intro c' turn holder hmem
  rcases h.moved hmem with hmem | ⟨-, hturn, -, ht⟩
  · exact (hs c' turn holder hmem).trans_le h.turn_le
  · omega

theorem harmless_of_still (hK : ¬ K .move) (h : Effect c K s t) : Harmless s t := by
  intro c' holder _ hmem
  rcases h.moved hmem with hmem | ⟨-, -, -, ht⟩
  · exact hmem
  · have := (h.turn hK).2
    omega

theorem harmless_of_other (hc : isStatus c = false) (h : Effect c K s t) : Harmless s t := by
  intro c' holder hstatus hmem
  rcases h.moved hmem with hmem | ⟨rfl, -⟩
  · exact hmem
  · rw [hc] at hstatus
    cases hstatus

/-- The kinds of things a handler of `STATUS` does while it is on its way. -/
def Calm (k : Kind) : Prop := k ≠ .move ∧ k ≠ .close

theorem Open.effect (hs : Open s.history c) (h : Effect c Calm s t) : Open t.history c := by
  obtain ⟨new, hhistory, hown, -⟩ := h
  rw [hhistory]
  intro e he hec
  rcases mem_append.mp he with he | he
  · exact hs e he hec
  · exact (hown e he).2

/-- A stretch of the handler that only does such things, from an assertion they keep. -/
theorem calm_sited {α : Type} {m : Handler cfg α} {f : α → Handler cfg Unit} {P : Hub cfg → Prop}
    (hm : m.Takes (Section c Calm)) (hP : (statusDiscipline Taken).Stable c.socket P)
    (hkeep : ∀ s t, P s → Effect c Calm s t → P t) (hs : P s)
    (hf : ∀ a t, P t → (f a).Sited (statusDiscipline Taken) c.socket (Site Taken c.socket) t) :
    (m >>= f).Sited (statusDiscipline Taken) c.socket (Site Taken c.socket) s := by
  have heffect : m.Steps (Effect c Calm) := effect_of_takes hm fun _ _ ↦ id
  have hsteps : m.Steps Harmless :=
    hm.steps fun _ _ _ h ↦ harmless_of_still (K := Calm) (by simp [Calm]) (h.effect fun _ _ ↦ id)
  refine hsteps.sited_bind site_of_harmless (heffect.ok hP (fun s t hs hinv _ h ↦ ?_) hs) hf
  exact ⟨TurnsPast.effect hinv h, h.turnGuar, hkeep s t hs h⟩

/-! ## The handler of a `STATUS` -/

/-- It has sent its list and is on its way. -/
def Probing (c : Connection cfg) (s : Hub cfg) : Prop := c ∈ probing s.history

theorem open_stable : (statusDiscipline Taken).Stable c.socket fun s ↦ Open s.history c := by
  rintro s t hs ⟨⟨new, ht, hnew⟩, -⟩
  rw [ht]
  exact hs.append hnew

theorem probing_stable : (statusDiscipline Taken).Stable c.socket (Probing c) := by
  rintro s t hs ⟨⟨new, ht, hnew⟩, -⟩
  rw [Probing, ht]
  exact mem_probing_append hs hnew

/-- It has copied the name of the holder, who still holds the turn. -/
def Copied (c : Connection cfg) (current : Name) (s : Hub cfg) : Prop :=
  Probing c s ∧ s.arbitration.currentSpeaker = current

theorem copied_stable (current : Name) :
    (statusDiscipline Taken).Stable c.socket (Copied c current) := by
  rintro s t ⟨hprobing, hcurrent⟩ hrely
  refine ⟨probing_stable s t hprobing hrely, ?_⟩
  rw [(hrely.2 c hprobing rfl).2, hcurrent]

theorem still_sited {m : Handler cfg Unit} (hm : m.Takes (Section c (· ≠ .move))) :
    m.Sited (statusDiscipline Taken) c.socket (Site Taken c.socket) s := by
  have heffect : m.Steps (Effect c (· ≠ .move)) := effect_of_takes hm fun _ _ ↦ id
  have hok : m.Ok (statusDiscipline Taken) c.socket (fun _ _ ↦ True) s :=
    heffect.ok (Discipline.stable_true _ _)
      (fun _ _ _ hinv _ h ↦ ⟨TurnsPast.effect hinv h, h.turnGuar, trivial⟩) trivial
  refine hok.sited (T := Harmless) ?_ site_of_harmless
  exact hm.steps fun _ _ _ h ↦
    harmless_of_still (K := (· ≠ .move)) (by simp) (h.effect fun _ _ ↦ id)

/-- The write: whoever holds the turn is the one that was found offline. -/
theorem foundOffline_sited (hfound : FoundOffline Taken c current) (hs : Copied c current s) :
    (foundOffline c current).Sited (statusDiscipline Taken) c.socket (Site Taken c.socket) s := by
  have hrest (next : Option cfg.Person) : ((match next with
      | none => pure ()
      | some p => do
        announce c p (ofAscii "offline:" ++ current.bytes)
        transcriptAppend c .transcript cfg.name .offlineGrant
          (current.bytes ++ ofAscii " -> " ++ (cfg.contact p).name.bytes) 0) >>=
        fun _ ↦ networkClose c : Handler cfg Unit).Takes (Section c (· ≠ .move)) := by
    refine takes_bind ?_ fun _ ↦ networkClose_takes nofun
    cases next with
    | none => exact takes_pure
    | some p =>
      exact takes_bind (announce_takes nofun _ _) fun _ ↦ transcriptAppend_takes nofun _ _ _ _
  rw [foundOffline, takeTurn, bind_assoc]
  refine sited_atomic_bind (Q := fun _ _ ↦ True) (copied_stable current) hs (fun t ht hinv ↦ ?_)
    (fun i t ht hinv _ ↦ ?_) fun next t _ ↦ still_sited (hrest next)
  · intro i c' holder hstatus hmoved
    rcases mem_append.mp hmoved with hmoved | hmoved
    · exact absurd (hinv c' _ holder hmoved) (Nat.lt_irrefl _)
    obtain ⟨rfl, -, rfl⟩ := Event.moved.inj (mem_singleton.mp hmoved)
    rw [ht.2, foundOffline, takeTurn, bind_assoc]
    exact ⟨rfl, rfl, hfound⟩
  · have h : Effect c (· = .move) t (t.turnTo c
        (t.arbitration.next cfg.contacts current t.online).2) :=
      effect_turnTo (K := (· = .move)) rfl _
    exact ⟨TurnsPast.effect hinv h, h.turnGuar, trivial⟩

/-- The look at the flag of the holder, and what follows it. -/
theorem passOfflineTurn_sited (hs : Copied c current s) :
    (passOfflineTurn c current >>= fun _ ↦ networkClose c).Sited (statusDiscipline Taken) c.socket
      (Site Taken c.socket) s := by
  rw [passOfflineTurn_eq, bind_assoc, holderOnline]
  cases hfind : cfg.find current with
  | none => exact foundOffline_sited (.inl hfind) hs
  | some p =>
    refine sited_atomic_bind (copied_stable current) hs (fun t _ hinv ↦ ?_)
      (Q := fun live t ↦ Copied c current t ∧ (live = false → FoundOffline Taken c current))
      (fun i t ht hinv hallowed ↦ ?_) fun live t ht ↦ ?_
    · exact site_of_harmless _ _ t hinv fun i _ _ _ hmem ↦ hmem
    · have h : Effect c Calm t t := effect_self
      exact ⟨hinv, h.turnGuar, ht, fun hlive ↦
        .inr ⟨p, t, hfind, hallowed.2, ht.1, ht.2, hlive⟩⟩
    cases live with
    | true => exact still_sited (networkClose_takes (by simp))
    | false => exact foundOffline_sited (ht.2 rfl) ht.1

/-- The end of `send_status`, from the line that ends the list. -/
theorem endLine_sited (hstatus : isStatus c = true) (hs : Open s.history c) :
    (reply c "END\n" >>= fun _ ↦ look (fun s : Hub cfg ↦ s.arbitration.currentSpeaker) >>=
      fun current ↦ (if current.isEmpty then pure () else passOfflineTurn c current) >>=
        fun _ ↦ networkClose c).Sited (statusDiscipline Taken) c.socket (Site Taken c.socket)
          s := by
  refine sited_atomic_bind (Q := fun _ ↦ Probing c) open_stable hs (fun t _ hinv ↦ ?_)
    (fun i t ht hinv _ ↦ ?_) fun _ t ht ↦ ?_
  · refine site_of_harmless _ _ t hinv fun i ↦ ?_
    exact harmless_of_still (c := c) (K := (· = .reply)) nofun
      (effect_note (.sent c endLine) rfl rfl nofun rfl rfl rfl rfl)
  · have h : Effect c Calm t (t.note (.sent c endLine)) :=
      effect_note (.sent c endLine) rfl ⟨nofun, nofun⟩ nofun rfl rfl rfl rfl
    refine ⟨TurnsPast.effect hinv h, h.turnGuar, mem_probing.mpr ⟨hstatus, ?_, ht.effect h⟩⟩
    exact mem_append_right _ (mem_singleton_self _)
  · refine sited_atomic_bind (Q := Copied c) probing_stable ht (fun t _ hinv ↦ ?_)
      (fun i t ht hinv _ ↦ ?_) fun current t ht ↦ ?_
    · exact site_of_harmless _ _ t hinv fun i _ _ _ hmem ↦ hmem
    · have h : Effect c Calm t t := effect_self
      exact ⟨hinv, h.turnGuar, ht, rfl⟩
    split
    · exact still_sited (networkClose_takes nofun)
    · exact passOfflineTurn_sited ht

/-- The handler of a `STATUS` writes the turn only where it should. -/
theorem handleConnection_sited_of_status (hstatus : isStatus c = true) (hs : Open s.history c) :
    (handleConnection c).Sited (statusDiscipline Taken) c.socket (Site Taken c.socket) s := by
  have hcommand : c.command = some .status := by
    rw [isStatus] at hstatus
    split at hstatus
    · assumption
    · cases hstatus
  have hkeep (s t : Hub cfg) (hs : Open s.history c) (h : Effect c Calm s t) : Open t.history c :=
    hs.effect h
  have hcalm {k : Kind} (hmove : k ≠ .move) (hclose : k ≠ .close) : Calm k := ⟨hmove, hclose⟩
  refine calm_sited markSeen_takes open_stable hkeep hs fun _ t ht ↦ ?_
  rw [serveLine, hcommand]
  dsimp only
  rw [bind_assoc]
  refine calm_sited (checkTurn_takes (hcalm (by simp) (by simp))) open_stable hkeep ht
    fun _ t ht ↦ ?_
  rw [handleCommand, sendStatus, bind_assoc]
  refine calm_sited time_takes open_stable hkeep ht fun now t ht ↦ ?_
  rw [bind_assoc]
  refine calm_sited (takes_foldlM (fun _ p ↦ sendPresence_takes (hcalm (by simp) (by simp))
    (hcalm (by simp) (by simp)) now p) _ _) open_stable hkeep ht fun _ t ht ↦ ?_
  rw [bind_assoc]
  exact endLine_sited hstatus ht

/-- A handler of anything else does not write it for a `STATUS`. -/
theorem handleConnection_sited_of_other (hstatus : isStatus c = false) :
    (handleConnection c).Sited (statusDiscipline Taken) c.socket (Site Taken c.socket) s := by
  have htakes := handleConnection_section c
  have heffect : (handleConnection c).Steps (Effect c fun _ ↦ True) :=
    effect_of_takes htakes fun _ _ ↦ id
  have hok : (handleConnection c).Ok (statusDiscipline Taken) c.socket (fun _ _ ↦ True) s :=
    heffect.ok (Discipline.stable_true _ _)
      (fun _ _ _ hinv _ h ↦ ⟨TurnsPast.effect hinv h, h.turnGuar, trivial⟩) trivial
  refine hok.sited (T := Harmless) ?_ site_of_harmless
  exact htakes.steps fun _ _ _ h ↦
    harmless_of_other (K := fun _ ↦ True) hstatus (h.effect fun _ _ ↦ id)

/-! ## The result -/

/-- **In every interleaving in which nobody writes the turn while a `STATUS` of another is on its
way, a `STATUS` that writes the turn takes it from the participant it found offline.** -/
theorem status_steals_nothing (restored : Name) (activity : Option Int) (logTime : Log → Nat)
    (acts : List (Act (Call cfg) Env)) (a : Act (Call cfg) Env)
    (hacts : System.Along connectionThread Unmoved ⟨Hub.boot cfg restored activity logTime, []⟩
      acts) :
    NothingStolen (Hub.boot cfg restored activity logTime) acts a := by
  let Taken := System.Took connectionThread ⟨Hub.boot cfg restored activity logTime, []⟩ acts
  have hbody (k : Nat) (call : Call cfg) :
      (connectionThread k call).Sited (statusDiscipline Taken) k (Site Taken k)
        (Hub.boot cfg restored activity logTime) := by
    cases hstatus : isStatus (⟨k, call.1, call.2⟩ : Connection cfg) with
    | true => exact handleConnection_sited_of_status hstatus nofun
    | false => exact handleConnection_sited_of_other hstatus
  have hboot : TurnsPast (Hub.boot cfg restored activity logTime) := nofun
  obtain ⟨hinv, hsites⟩ :=
    (statusDiscipline Taken).run_sited hboot hbody (System.along_took hacts)
  rw [NothingStolen]
  generalize System.run connectionThread ⟨Hub.boot cfg restored activity logTime, []⟩ acts = sys
    at hinv hsites ⊢
  have hsame {c : Connection cfg} {holder : Name} :
      .moved c sys.shared.turn holder ∉ sys.shared.history :=
    fun hmem ↦ absurd (hinv c _ holder hmem) (Nat.lt_irrefl _)
  intro c holder hstatus hmoved
  cases a with
  | spawn call => exact absurd hmoved hsame
  | advance k i =>
    rcases System.act_advance connectionThread sys k i with hact | ⟨next, rest, hk, hact⟩
    · rw [hact] at hmoved
      exact absurd hmoved hsame
    rw [hact] at hmoved
    obtain ⟨rfl, htext, hfound⟩ := (hsites k _ hk sys.shared
      ((statusDiscipline Taken).rely_refl _ _) hinv).1 i c holder hstatus hmoved
    exact ⟨htext ▸ hk, hfound⟩

/-- Bob asks who is there, up to the point where alice, whose turn it is, has been found offline. -/
def aliceGone : List (Act (Call small) Env) :=
  [small.connects small.bob (some "STATUS")] ++ small.goesOn 0 18

/-- And then carol is granted the turn. -/
def carolGranted : List (Act (Call small) Env) :=
  aliceGone ++ [small.connects small.carol (some "GRANT carol")] ++ small.goesOn 1 3

theorem nothing_stolen_from_alice :
    System.Along connectionThread Unmoved ⟨small.start, []⟩ aliceGone ∧
      NothingStolen small.start aliceGone (.advance 0 small.noon) :=
  ⟨by decide +kernel, status_steals_nothing _ _ _ _ _ (by decide +kernel)⟩

/-- **A run in which the turn is taken from carol, who is there, because alice was not.** -/
theorem live_turn_stolen :
    ¬ NothingStolen small.start carolGranted (.advance 0 small.noon) := by
  intro h
  let bobs : Connection small := ⟨0, small.bob, some (ofAscii "STATUS")⟩
  obtain ⟨-, hnone | ⟨p, s, hfind, ⟨before, i, after, hacts, rfl, -⟩, -, hspeaker, hoffline⟩⟩ :=
    h bobs (small.contact small.carol).name (by decide +kernel) (by decide +kernel)
  · exact absurd hnone (by decide +kernel)
  have hcarol : small.find (small.contact small.carol).name = some small.carol := by decide +kernel
  obtain rfl := Option.some.inj (hcarol.symm.trans hfind)
  -- whenever it is carol's turn carol is there
  have hthere : ∀ n < carolGranted.length,
      (System.run connectionThread ⟨small.start, []⟩
        (carolGranted.take n)).shared.arbitration.currentSpeaker =
          (small.contact small.carol).name →
      (System.run connectionThread ⟨small.start, []⟩
        (carolGranted.take n)).shared.online small.carol = true := by
    decide +kernel
  have hn : before.length < carolGranted.length := by
    rw [hacts, length_append, length_cons]
    omega
  have honline := hthere before.length hn
  rw [hacts, take_left, hoffline] at honline
  exact absurd (honline hspeaker) (by simp)

end Noobia.Council.Status
