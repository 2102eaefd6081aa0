import Noobia.Council.Context
import Noobia.Council.Restart
import Noobia.Lib.RoundRobin

/-!
# A message and the turn

Whoever has the turn says something, and the turn goes on: to the one the message is addressed to,
or, if it is addressed to nobody, to the next one online.  The message is delivered first, the turn
is moved then, and only after that does the hub know whether it has to reply with an error.

`serveLine_say` and the lemmas before it say what a message that is served on its own does to the
turn.  Two questions are answered with them.  A message that is rejected should leave the turn where
it was; `rejected_keeps_turn_iff` says when it does.  And a conversation of unaddressed messages
should give everybody online a turn before anybody has a second one; `turns_fair` says that it does
if nobody shares a name with the next one online.
-/

namespace Noobia.Council

open List Bytes

open Routine

variable {cfg : Config} {c : Connection cfg} {T : Env → Hub cfg → Hub cfg → Prop}

/-! ## The round robin -/

namespace Arbitration

variable {book : List Contact} {previous : Name} {online : Fin book.length → Bool}
  {s : Arbitration}

theorem next_eq_some {i : Fin book.length} (h : (s.next book previous online).1 = some i) :
    s.next book previous online = (some i, ⟨(i + 1) % book.length, (book.get i).name⟩) := by
  rw [next] at h ⊢
  split at h
  · obtain rfl := Option.some.inj h
    simp only [grant, Name.snprintf_bytes]
  · cases h

theorem next_eq_none (h : (s.next book previous online).1 = none) :
    s.next book previous online = (none, { s with currentSpeaker := .empty }) := by
  rw [next] at h ⊢
  split at h
  · cases h
  · rfl

/-- The search goes once round the book, from `nextIndex` on. -/
theorem map_slot (start count : Nat) :
    (List.finRange count).map (slot start) = (List.finRange count).rotate start := by
  refine ext_getElem (by simp) fun i _ _ ↦ ?_
  rw [getElem_map, getElem_rotate, getElem_finRange, getElem_finRange]
  refine Fin.ext ?_
  simp [slot, Nat.add_comm]

end Arbitration

/-! ## Replies -/

/-- The lines sent to the caller since `s` are these. -/
def Replied (c : Connection cfg) (lines : List Bytes) (s t : Hub cfg) : Prop :=
  ∃ new, t.history = s.history ++ new ∧ new.filterMap (Event.lineTo c) = lines

theorem Replied.replies {s t : Hub cfg} {lines : List Bytes} (h : Replied c lines s t) :
    replies c s t = lines := by
  obtain ⟨new, ht, rfl⟩ := h
  rw [replies_eq, ht, drop_left]

theorem Replied.trans {s t u : Hub cfg} {lines lines' : List Bytes} (hst : Replied c lines s t)
    (htu : Replied c lines' t u) : Replied c (lines ++ lines') s u := by
  obtain ⟨new, ht, rfl⟩ := hst
  obtain ⟨new', hu, rfl⟩ := htu
  exact ⟨new ++ new', by rw [hu, ht, append_assoc], filterMap_append⟩

theorem replied_nil (s : Hub cfg) : Replied c [] s s := ⟨[], (append_nil _).symm, rfl⟩

theorem Effect.replied {K : Kind → Prop} {s t : Hub cfg} (h : Effect c K s t) (hK : ¬ K .reply) :
    Replied c [] s t := by
  obtain ⟨new, hhistory, hown, -, -⟩ := h
  refine ⟨new, hhistory, filterMap_eq_nil_iff.mpr fun e he ↦ ?_⟩
  cases e with
  | sent => exact absurd (hown _ he).2 hK
  | _ => rfl

variable {α : Type} {m : Handler cfg α}

theorem silent_alone (hm : m.Takes (Section c (· ≠ .reply))) (s : Hub cfg) :
    m.Alone T s fun _ ↦ Replied c [] s := by
  refine hm.alone (fun _ u v _ h hu ↦ ?_) (replied_nil s)
  have heffect : Effect c (· ≠ .reply) u v := h.effect fun _ _ hk ↦ hk
  exact hu.trans (heffect.replied fun h ↦ h rfl)

theorem still_alone (hm : m.Takes (Section c (· ≠ .move))) (s : Hub cfg) :
    m.Alone T s fun _ t ↦ t.arbitration = s.arbitration := by
  refine hm.alone (fun _ u v _ h hu ↦ ?_) rfl
  have heffect : Effect c (· ≠ .move) u v := h.effect fun _ _ hk ↦ hk
  exact (heffect.turn fun h ↦ h rfl).1.trans hu

theorem send_replied (line : Bytes) (s : Hub cfg) :
    (send c line).Alone T s fun _ t ↦ t.arbitration = s.arbitration ∧ Replied c [line] s t :=
  alone_change fun _ _ ↦ ⟨rfl, [.sent c line], rfl, by simp [Event.lineTo]⟩

/-! ## Relaying a message -/

theorem messageTarget_addressed (cfg : Config) (message : Bytes) :
    (messageTarget cfg message).2 = (messageTarget cfg message).1.isSome := by
  rw [messageTarget]
  split
  · rfl
  · split <;> rfl

theorem announced_alone (p : cfg.Person) (command : Bytes) (s : Hub cfg) :
    (do
      announce c p command
      transcriptAppend c .transcript cfg.name .grant (cfg.contact p).name.bytes 0
      return Routed.routed : Handler cfg Routed).Alone T s
      fun outcome t ↦ outcome = .routed ∧ t.arbitration = s.arbitration := by
  refine alone_bind (still_alone (announce_takes nofun p command) s) fun _ t ht ↦ ?_
  refine alone_bind (still_alone (transcriptAppend_takes nofun _ _ _ _) t) fun _ u hu ↦ ?_
  exact alone_pure ⟨rfl, hu.trans ht⟩

variable {message : Bytes}

/-- A message that is addressed to somebody moves the turn only if it is routed. -/
theorem relayMessage_addressed {p : cfg.Person}
    (htarget : (messageTarget cfg message).1 = some p) (s : Hub cfg) :
    (relayMessage c message).Alone T s fun outcome t ↦
      outcome ≠ .routed → t.arbitration = s.arbitration := by
  rw [relayMessage]
  generalize messageTarget cfg message = found at htarget
  obtain ⟨target, addressed⟩ := found
  obtain rfl : target = some p := htarget
  refine alone_ite (fun _ ↦ alone_pure fun _ ↦ rfl) fun _ ↦ ?_
  refine alone_ite (fun _ ↦ alone_pure fun _ ↦ rfl) fun _ ↦ ?_
  refine alone_bind (still_alone (c := c) (reachHuman_takes _) s) fun next t ht ↦ ?_
  refine alone_bind (still_alone (takes_foldlM (deliverTo_takes (by simp) _ _) _ _) t)
    fun next u hu ↦ ?_
  cases next with
  | none =>
    refine alone_bind (R := fun next v ↦ next = none ∧ v = u) (alone_pure ⟨rfl, rfl⟩) ?_
    rintro next v ⟨rfl, rfl⟩
    exact alone_pure fun _ ↦ hu.trans ht
  | some q =>
    refine alone_bind (R := fun next _ ↦ next = some q) (alone_bind
      (R := fun _ _ ↦ True) (alone_change fun _ _ ↦ trivial) fun _ _ _ ↦ alone_pure rfl) ?_
    rintro next v rfl
    exact (announced_alone q _ v).mono fun outcome w hw hnot ↦ absurd hw.1 hnot

/-- A message that is addressed to nobody passes the turn on, to one of those that are online once
it has been delivered. -/
theorem relayMessage_unaddressed {s : Hub cfg} {online : cfg.Person → Bool}
    (htarget : (messageTarget cfg message).1 = none)
    (hdeliver : (cfg.people.foldlM (deliverTo c message none) none).Alone T s fun _ t ↦
      t.arbitration = s.arbitration ∧ t.online = online) :
    (relayMessage c message).Alone T s fun outcome t ↦
      t.arbitration = (s.arbitration.next cfg.contacts c.name online).2 ∧
      outcome = if (s.arbitration.next cfg.contacts c.name online).1.isSome then .routed
        else .targetOffline := by
  have haddressed := messageTarget_addressed cfg message
  rw [relayMessage]
  generalize messageTarget cfg message = found at htarget haddressed
  obtain ⟨target, addressed⟩ := found
  obtain rfl : target = none := htarget
  obtain rfl : addressed = false := haddressed
  refine alone_ite (fun h ↦ by cases h) fun _ ↦ alone_ite (fun h ↦ by cases h) fun _ ↦ ?_
  refine alone_bind (R := fun next t ↦ next = none ∧ t = s) (alone_pure ⟨rfl, rfl⟩) ?_
  rintro next t ⟨rfl, rfl⟩
  refine alone_bind hdeliver fun next u hu ↦ ?_
  refine alone_bind (R := fun next v ↦ (next, v.arbitration) =
    t.arbitration.next cfg.contacts c.name online) (alone_atomic fun _ _ ↦ ?_) fun next v hv ↦ ?_
  · rw [hu.1, hu.2]
    rfl
  rw [← hv]
  cases next with
  | none => exact alone_pure ⟨rfl, rfl⟩
  | some p => exact (announced_alone p _ v).mono fun outcome w hw ↦ ⟨hw.2, hw.1⟩

/-- The line sent in reply to a message. -/
def Routed.line : Routed → Bytes
  | routed => accepted
  | targetOffline => Bytes.ofAscii "ERROR TARGET_OFFLINE\n"
  | targetUnknown => Bytes.ofAscii "ERROR TARGET_UNKNOWN\n"
  | targetSelf => Bytes.ofAscii "ERROR TARGET_SELF\n"

variable {R : Routed → Arbitration → Prop}

/-- **Where the turn is after a message is where it is once the message has been relayed**, and the
reply says how that went. -/
theorem serveLine_say (hcommand : c.command = some (.say message)) {s : Hub cfg}
    (hturn : s.arbitration.canSpeak c.name = true)
    (hrelay : ∀ t : Hub cfg, t.arbitration = s.arbitration → t.online = s.online →
      (relayMessage c message).Alone T t fun outcome u ↦ R outcome u.arbitration) :
    (serveLine c).Alone T s fun _ t ↦
      ∃ outcome, R outcome t.arbitration ∧ Replied c [outcome.line] s t := by
  rw [serveLine, hcommand]
  refine alone_bind (R := fun hasTurn t ↦ hasTurn = true ∧ t.arbitration = s.arbitration ∧
    t.online = s.online ∧ Replied c [] s t) (alone_atomic fun _ _ ↦ ⟨hturn, rfl, rfl,
      [.checked c _ _], rfl, rfl⟩) ?_
  rintro _ t ⟨rfl, harbitration, honline, hst⟩
  rw [handleCommand, Bool.not_true, if_neg Bool.false_ne_true, acceptMessage]
  refine alone_bind (R := fun outcome u ↦ R outcome u.arbitration ∧ Replied c [] s u)
    (fun outcome u hu ↦ ⟨hrelay t harbitration honline outcome u hu, hst.trans (silent_alone
      (relayMessage_takes (by simp) (by simp) (by simp) message) t outcome u hu)⟩) ?_
  rintro outcome u ⟨hR, hsu⟩
  have hsend (line : Bytes) (hline : outcome.line = line) {v : Hub cfg}
      (hv : v.arbitration = u.arbitration) (hsv : Replied c [] s v) :
      (send c line).Alone T v fun _ t ↦
        ∃ outcome, R outcome t.arbitration ∧ Replied c [outcome.line] s t := by
    refine (send_replied line v).mono fun _ w hw ↦ ⟨outcome, ?_, hline ▸ hsv.trans hw.2⟩
    rwa [hw.1, hv]
  cases outcome with
  | routed =>
    refine alone_bind (R := fun _ v ↦ v.arbitration = u.arbitration ∧ Replied c [] s v)
      (fun _ v hv ↦ ⟨still_alone (transcriptAppend_takes (by decide) _ _ _ _) u _ v hv, hsu.trans
        (silent_alone (transcriptAppend_takes (by decide) _ _ _ _) u _ v hv)⟩) fun _ v hv ↦ ?_
    refine alone_bind (R := fun _ w ↦ w.arbitration = u.arbitration ∧ Replied c [] s w)
      (fun _ w hw ↦ ⟨(still_alone (markActivity_takes (by simp)) v _ w hw).trans hv.1, hv.2.trans
        (silent_alone (markActivity_takes (by simp)) v _ w hw)⟩) fun _ w hw ↦ ?_
    exact hsend accepted rfl hw.1 hw.2
  | targetOffline | targetUnknown | targetSelf => exact hsend _ rfl rfl hsu

/-- The same for the whole handler, which first marks the caller as seen. -/
theorem handleConnection_say (hcommand : c.command = some (.say message))
    {s : Hub cfg} (hturn : s.arbitration.canSpeak c.name = true)
    (hrelay : ∀ i (seen t : Hub cfg), T i s seen → t.arbitration = s.arbitration →
      t.online = seen.online → seen.online = Function.update s.online c.person true →
      (relayMessage c message).Alone T t fun outcome u ↦ R outcome u.arbitration) :
    (handleConnection c).Alone T s fun _ t ↦
      ∃ outcome, R outcome t.arbitration ∧ Replied c [outcome.line] s t := by
  refine alone_bind (R := fun _ seen ↦ (∃ i, T i s seen) ∧ seen.arbitration = s.arbitration ∧
    seen.online = Function.update s.online c.person true ∧ Replied c [] s seen)
    (alone_change fun i hi ↦ ⟨⟨i, hi⟩, rfl, rfl, [], (append_nil _).symm, rfl⟩) ?_
  rintro _ seen ⟨⟨i, hi⟩, harbitration, honline, hseen⟩
  refine alone_bind (serveLine_say hcommand (by rwa [harbitration]) fun t ht htonline ↦
    hrelay i seen t hi (ht.trans harbitration) htonline honline) ?_
  rintro _ t ⟨outcome, hR, ht⟩
  refine alone_change fun _ _ ↦ ⟨outcome, hR, ?_⟩
  exact (hseen.trans ht).trans ⟨[.closed c], rfl, rfl⟩

/-! ## A message that is rejected -/

/-- A delivery goes through if the other service is `up`, and only then. -/
def Event.answers (up : cfg.Person → Bool) : Event cfg → Bool
  | exchanged _ p command ok => starts "DELIVER " command → ok = up p
  | _ => true

/-- The deliveries of a section go through if the other service is `up`, and only then. -/
def Answering (up : cfg.Person → Bool) (_ : Env) (s t : Hub cfg) : Prop :=
  ∀ e ∈ t.history.drop s.history.length, e.answers up = true
  deriving Decidable

/-- Who is online once a message has been delivered to everybody: those who get it find out, for the
others it is as it was. -/
def Hub.reached (s : Hub cfg) (c : Connection cfg) (up : cfg.Person → Bool) (p : cfg.Person) :
    Bool :=
  if (cfg.contact p).role = .ai ∧ p ≠ c.person then (cfg.find cfg.name).isSome && up p
  else s.online p

variable {up : cfg.Person → Bool}

theorem deliver_answering (message : Bytes) (p : cfg.Person) (s : Hub cfg) :
    (deliver c p (deliverCommand c.name message)).Alone (Answering up) s fun _ t ↦
      t.arbitration = s.arbitration ∧
      t.online = Function.update s.online p ((cfg.find cfg.name).isSome && up p) := by
  refine alone_bind (R := fun ok t ↦ ok = ((cfg.find cfg.name).isSome && up p) ∧
    t.arbitration = s.arbitration ∧ t.online = s.online) ?_ ?_
  · rw [exchange]
    split
    · rename_i hfind
      refine alone_atomic fun i hi ↦ ⟨?_, rfl, rfl⟩
      rw [hfind, Bool.true_and]
      have hanswer := hi (.exchanged c p (deliverCommand c.name message) i.ok)
        (by rw [Hub.note, drop_left]; exact mem_singleton_self _)
      rw [Event.answers, decide_eq_true_eq] at hanswer
      refine hanswer ?_
      simp [deliverCommand, starts, ofAscii, List.isPrefixOf]
    · rename_i hfind
      refine alone_pure ⟨?_, rfl, rfl⟩
      rw [Bool.not_eq_true] at hfind
      rw [hfind, Bool.false_and]
  · rintro ok t ⟨rfl, harbitration, honline⟩
    refine alone_bind (R := fun _ u ↦ u.arbitration = s.arbitration ∧ u.online =
      Function.update s.online p ((cfg.find cfg.name).isSome && up p)) (alone_change fun _ _ ↦ ?_)
      fun _ u hu ↦ alone_pure hu
    exact ⟨harbitration, by rw [← honline]⟩

theorem deliverTo_answering (message : Bytes) (next : Option cfg.Person) (q : cfg.Person)
    (s : Hub cfg) : (deliverTo c message none next q).Alone (Answering up) s fun _ t ↦
      t.arbitration = s.arbitration ∧
      t.online = fun p ↦ if p = q then s.reached c up p else s.online p := by
  rw [deliverTo]
  refine alone_ite (fun hskip ↦ alone_pure ⟨rfl, funext fun p ↦ ?_⟩) fun hdeliver ↦ ?_
  · have hq : ¬ ((cfg.contact q).role = .ai ∧ q ≠ c.person) := by
      rintro ⟨hrole, hself⟩
      simp [hrole, hself] at hskip
    split
    · rename_i hp
      rw [hp, Hub.reached, if_neg hq]
    · rfl
  · have hq : (cfg.contact q).role = .ai ∧ q ≠ c.person := by
      simpa using hdeliver
    refine alone_bind (deliver_answering message q s) fun _ t ht ↦ alone_pure ⟨ht.1, ?_⟩
    rw [ht.2]
    funext p
    rw [Function.update_apply]
    split
    · rename_i hp
      rw [hp, Hub.reached, if_pos hq]
    · rfl

theorem reached_of_online {s t : Hub cfg} {q : cfg.Person}
    (h : t.online = fun p ↦ if p = q then s.reached c up p else s.online p) :
    t.reached c up = s.reached c up := by
  funext p
  rw [Hub.reached, Hub.reached]
  split
  · rfl
  rename_i hp
  rw [h]
  dsimp only
  rw [Hub.reached, if_neg hp, ite_self]

theorem deliverAll_answering (message : Bytes) (people : List cfg.Person)
    (next : Option cfg.Person) (s : Hub cfg) :
    (people.foldlM (deliverTo c message none) next).Alone (Answering up) s fun _ t ↦
      t.arbitration = s.arbitration ∧
      t.online = fun p ↦ if p ∈ people then s.reached c up p else s.online p := by
  induction people generalizing next s with
  | nil => exact alone_pure ⟨rfl, by simp⟩
  | cons q people ih =>
    rw [foldlM_cons]
    refine alone_bind (deliverTo_answering message next q s) fun next t ht ↦ ?_
    refine (ih next t).mono fun _ u hu ↦ ⟨hu.1.trans ht.1, ?_⟩
    rw [hu.2, reached_of_online ht.2, ht.2]
    funext p
    by_cases hq : p = q <;> by_cases hp : p ∈ people <;> simp [hq, hp]

theorem relayMessage_answering (htarget : (messageTarget cfg message).1 = none)
    (s : Hub cfg) : (relayMessage c message).Alone (Answering up) s fun outcome t ↦
      t.arbitration = (s.arbitration.next cfg.contacts c.name (s.reached c up)).2 ∧
      outcome = if (s.arbitration.next cfg.contacts c.name (s.reached c up)).1.isSome then .routed
        else .targetOffline := by
  refine relayMessage_unaddressed htarget ((deliverAll_answering message cfg.people none s).mono
    fun _ t ht ↦ ⟨ht.1, ?_⟩)
  rw [ht.2]
  funext p
  exact if_pos (mem_finRange p)

theorem starts_error_line (outcome : Routed) :
    starts "ERROR " outcome.line = true ↔ outcome ≠ .routed := by
  cases outcome with
  | routed => exact ⟨fun h ↦ absurd h (by decide), fun h ↦ absurd rfl h⟩
  | targetOffline | targetUnknown | targetSelf => exact ⟨fun _ ↦ nofun, fun _ ↦ by decide⟩

/-- There is somebody the turn of a message that is addressed to nobody can go to: someone of
another name who is online once it has been delivered. -/
def Hub.HasAudience (s : Hub cfg) (c : Connection cfg) (up : cfg.Person → Bool) : Prop :=
  ∃ p, s.reached c up p = true ∧ (cfg.contact p).name ≠ c.name

/-- **When a rejected message leaves the turn where it was.**  The sender has the turn and its
message is served on its own.  If the reply is an error then the turn is as it was before, for every
message that is addressed to somebody, for one that is not if there is somebody to pass the turn to,
and if the turn was nobody's in the first place.  In no other case. -/
theorem rejected_keeps_turn_iff {message : Bytes} (hcommand : c.command = some (.say message))
    {s t : Hub cfg} (hturn : s.arbitration.canSpeak c.name = true)
    (h : (handleConnection c).Leads (Answering up) s () t) :
    ((∃ line ∈ replies c s t, starts "ERROR " line = true) → t.arbitration = s.arbitration) ↔
      (messageTarget cfg message).1.isSome = true ∨ s.HasAudience c up ∨
        s.arbitration.currentSpeaker = .empty := by
  have hline {outcome : Routed} (hreplied : Replied c [outcome.line] s t) :
      (∃ line ∈ replies c s t, starts "ERROR " line = true) ↔ outcome ≠ .routed := by
    simp only [hreplied.replies, mem_singleton, exists_eq_left, starts_error_line]
  cases htarget : (messageTarget cfg message).1 with
  | some p =>
    obtain ⟨outcome, hkept, hreplied⟩ := handleConnection_say hcommand hturn
      (R := fun outcome arbitration ↦ outcome ≠ .routed → arbitration = s.arbitration)
      (fun _ _ u _ hu _ _ ↦ hu ▸ relayMessage_addressed htarget u) _ t h
    exact ⟨fun _ ↦ .inl rfl, fun _ herror ↦ hkept ((hline hreplied).mp herror)⟩
  | none =>
    have hreached {u : Hub cfg} (hu : u.online = Function.update s.online c.person true)
        (p : cfg.Person) (hp : (cfg.contact p).name ≠ c.name) :
        u.reached c up p = s.reached c up p := by
      have hperson : p ≠ c.person := by
        rintro rfl
        exact hp rfl
      rw [Hub.reached, Hub.reached, hu, Function.update_of_ne hperson]
    obtain ⟨outcome, ⟨online, honline, harbitration, houtcome⟩, hreplied⟩ :=
      handleConnection_say hcommand hturn (R := fun outcome arbitration ↦ ∃ online,
        (∀ p, (cfg.contact p).name ≠ c.name → online p = s.reached c up p) ∧
        arbitration = (s.arbitration.next cfg.contacts c.name online).2 ∧
        outcome = if (s.arbitration.next cfg.contacts c.name online).1.isSome then .routed
          else .targetOffline)
      (fun _ _ u _ hu huonline hseen ↦ (relayMessage_answering htarget u).mono fun _ v hv ↦
        ⟨u.reached c up, hreached (huonline.trans hseen), hu ▸ hv⟩) _ t h
    rw [hline hreplied, harbitration, houtcome]
    rcases s.arbitration.next_spec cfg.contacts c.name online with
      ⟨p, hnext, hp, hname, -⟩ | ⟨hnext, hnone, hfree⟩
    · rw [hnext]
      refine ⟨fun _ ↦ .inr (.inl ⟨p, ?_, hname⟩), fun _ herror ↦ absurd rfl herror⟩
      rw [← honline p hname]
      exact hp
    · have hnobody : ¬ s.HasAudience c up := by
        rintro ⟨p, hp, hname⟩
        exact hname (hnone p (by rw [honline p hname]; exact hp))
      rw [Arbitration.next_eq_none hnext]
      constructor
      · intro hkept
        have hsame := hkept (fun h ↦ nomatch h)
        exact .inr (.inr (congrArg Arbitration.currentSpeaker hsame).symm)
      · rintro (hsome | haudience | hempty) -
        · cases hsome
        · exact absurd haudience hnobody
        · rw [← hempty]

/-- **A rejected message takes the turn away.**  Alice has the turn and says something to everybody,
but nobody else is there. -/
theorem turn_lost_on_rejection : ∃ t : Hub small,
    (handleConnection (small.call 0 small.alice "SAY hello")).Leads (Answering fun _ ↦ false)
      small.start () t ∧
    small.start.arbitration.currentSpeaker = (small.call 0 small.alice "SAY hello").name ∧
    replies (small.call 0 small.alice "SAY hello") small.start t =
      [Bytes.ofAscii "ERROR TARGET_OFFLINE\n"] ∧
    t.arbitration ≠ small.start.arbitration := by
  refine ⟨_, leads_finish (i := small.cutOff) (by decide +kernel), by decide +kernel,
    by decide +kernel, fun h ↦ ?_⟩
  exact absurd (congrArg (·.currentSpeaker.isEmpty) h) (by decide +kernel)

/-- Alice says something to bob, who is not there.  She keeps the turn. -/
theorem addressed_rejection_keeps_turn : ∃ t : Hub small,
    (handleConnection (small.call 0 small.alice "SAY bob, hello")).Leads (Answering fun _ ↦ false)
      small.start () t ∧
    replies (small.call 0 small.alice "SAY bob, hello") small.start t =
      [Bytes.ofAscii "ERROR TARGET_OFFLINE\n"] ∧
    t.arbitration = small.start.arbitration := by
  have hleads := leads_finish (T := Answering fun _ ↦ false) (i := small.cutOff)
    (m := handleConnection (small.call 0 small.alice "SAY bob, hello")) (s := small.start)
    (by decide +kernel)
  have hcommand : (small.call 0 small.alice "SAY bob, hello").command =
    some (.say (ofAscii "bob, hello")) := rfl
  refine ⟨_, hleads, by decide +kernel, ?_⟩
  refine (rejected_keeps_turn_iff hcommand (by decide +kernel) hleads).mpr
    (.inl (by decide +kernel)) ⟨ofAscii "ERROR TARGET_OFFLINE\n", ?_, ?_⟩
  · decide +kernel
  · decide +kernel

/-! ## A conversation -/

/-- Those that are online, in the order of the book. -/
def Config.members (cfg : Config) (online : cfg.Person → Bool) : List cfg.Person :=
  cfg.people.filter online

/-- Nobody online has the name of the next one online, going round the book. -/
def Config.Alternating (cfg : Config) (online : cfg.Person → Bool) : Prop :=
  ∀ p (h : p ∈ cfg.members online),
    (cfg.contact p).name ≠ (cfg.contact ((cfg.members online).next p h)).name
  deriving Decidable

/-- A section after which just those people are online. -/
def Steady (online : cfg.Person → Bool) (_ : Env) (_ t : Hub cfg) : Prop := t.online = online

instance {online : cfg.Person → Bool} {i : Env} {s t : Hub cfg} :
    Decidable (Steady online i s t) :=
  decidable_of_iff (∀ p, t.online p = online p) funext_iff.symm

/-- A conversation of so many messages, served one after the other.  Each is addressed to nobody and
comes from the current speaker, and all the time the same people are online. -/
structure Conversation (cfg : Config) (online : cfg.Person → Bool) (messages : Nat) where
  /-- The hub before each message, and after the last one. -/
  hub : Nat → Hub cfg
  /-- The connections the messages come on. -/
  sender : Nat → Connection cfg
  unaddressed : ∀ k < messages, ∃ message, (sender k).command = some (.say message) ∧
    (messageTarget cfg message).1 = none
  speaking : ∀ k < messages, (sender k).name = (hub k).arbitration.currentSpeaker
  leads : ∀ k < messages, (handleConnection (sender k)).Leads (Steady online) (hub k) ()
    (hub (k + 1))

variable {online : cfg.Person → Bool} {messages : Nat}

theorem nodup_people : cfg.people.Nodup := nodup_finRange _

theorem nodup_members : (cfg.members online).Nodup := nodup_people.filter _

/-- The one after `p` has the next turn if the names of the two are different. -/
theorem next_after {p : cfg.Person} (hp : p ∈ cfg.members online)
    (hnames : (cfg.contact p).name ≠ (cfg.contact ((cfg.members online).next p hp)).name)
    {s : Arbitration} (hindex : s.nextIndex = (p + 1) % cfg.contacts.length) :
    (s.next cfg.contacts (cfg.contact p).name online).1 =
      some ((cfg.members online).next p hp) := by
  have hfind : (cfg.people.rotate (p + 1)).find? online =
      some ((cfg.members online).next p hp) := by
    have hplace : p.val < cfg.people.length := by simp [Config.people]
    have hget : cfg.people[p.val] = p := by simp [Config.people]
    have hmem : cfg.people[p.val] ∈ cfg.people.filter online := hget.symm ▸ hp
    rw [RoundRobin.find?_rotate_succ nodup_people hplace hmem]
    simp only [hget]
    rfl
  obtain ⟨honline, before, after, hsplit, hbefore⟩ := find?_eq_some_iff_append.mp hfind
  have heligible : (cfg.people.rotate (p + 1)).find? (fun i ↦ online i &&
      ((cfg.contacts.get i).name ≠ (cfg.contact p).name : Bool)) =
      some ((cfg.members online).next p hp) := by
    refine find?_eq_some_iff_append.mpr ⟨?_, before, after, hsplit, fun q hq ↦ ?_⟩
    · rw [honline, Bool.true_and, decide_eq_true_eq]
      exact hnames.symm
    have hq := hbefore q hq
    rw [Bool.not_eq_true'] at hq ⊢
    rw [hq, Bool.false_and]
  have hrotate : cfg.people.rotate ((p + 1) % cfg.contacts.length) = cfg.people.rotate (p + 1) := by
    rw [← rotate_mod cfg.people (p + 1), Config.people, length_finRange]
  rw [Arbitration.next, Arbitration.map_slot, hindex]
  rw [show List.finRange cfg.contacts.length = cfg.people from rfl, hrotate, heligible]

/-- **A message addressed to nobody is a step of the round robin.** -/
theorem Conversation.arbitration_succ (talk : Conversation cfg online messages) {k : Nat}
    (hk : k < messages) : (talk.hub (k + 1)).arbitration = ((talk.hub k).arbitration.next
      cfg.contacts (talk.sender k).name online).2 := by
  obtain ⟨message, hcommand, htarget⟩ := talk.unaddressed k hk
  have hturn : (talk.hub k).arbitration.canSpeak (talk.sender k).name = true := by
    simp [Arbitration.canSpeak, talk.speaking k hk]
  have hrelay (t : Hub cfg) (ht : t.arbitration = (talk.hub k).arbitration)
      (htonline : t.online = online) :
      (relayMessage (talk.sender k) message).Alone (Steady online) t fun _ u ↦
        u.arbitration = ((talk.hub k).arbitration.next cfg.contacts (talk.sender k).name
          online).2 := by
    have htakes := takes_foldlM (deliverTo_takes (c := talk.sender k) (K := (· ≠ .move)) nofun
      message none) cfg.people none
    rw [← ht]
    refine (relayMessage_unaddressed htarget fun _ u hu ↦ ⟨still_alone htakes t _ u hu, ?_⟩).mono
      fun _ _ h ↦ h.1
    exact htakes.alone (T := Steady online) (P := fun u ↦ u.online = online)
      (fun _ _ _ hT _ _ ↦ hT) htonline _ u hu
  obtain ⟨-, harbitration, -⟩ := handleConnection_say hcommand hturn
    (R := fun _ arbitration ↦ arbitration = ((talk.hub k).arbitration.next cfg.contacts
      (talk.sender k).name online).2)
      (fun _ _ t hseen ht htonline _ ↦ hrelay t ht (htonline.trans hseen)) _ _ (talk.leads k hk)
  exact harbitration

/-- **The round robin is fair.**  At least two are online, and nobody online has the name of the
next one online.  Then every message of the conversation gives the turn to somebody, and any so many
grants in a row as there are people online give everybody online exactly one turn. -/
theorem turns_fair (talk : Conversation cfg online messages)
    (htwo : 2 ≤ (cfg.members online).length) (hnames : cfg.Alternating online) :
    ∃ turns : Nat → cfg.Person,
      (∀ k < messages, (talk.hub k).arbitration.next cfg.contacts (talk.sender k).name online =
        (some (turns k), (talk.hub (k + 1)).arbitration)) ∧
      ∀ start, start + (cfg.members online).length ≤ messages →
        ((List.range (cfg.members online).length).map fun i ↦ turns (start + i)).Perm
          (cfg.members online) := by
  obtain ⟨first, hfirst⟩ := exists_mem_of_length_pos (Nat.lt_of_lt_of_le Nat.two_pos htwo)
  have hmem {p : cfg.Person} : p ∈ cfg.members online ↔ online p = true := by
    simp [Config.members, Config.people]
  -- not everybody has the name of the one who has just spoken
  have hgrant (s : Arbitration) (previous : Name) :
      ∃ p ∈ cfg.members online, (s.next cfg.contacts previous online).1 = some p := by
    rcases s.next_spec cfg.contacts previous online with ⟨p, hp, honline, -⟩ | ⟨-, hall, -⟩
    · exact ⟨p, hmem.mpr honline, hp⟩
    · refine absurd ?_ (hnames first hfirst)
      exact (hall _ (hmem.mp hfirst)).trans (hall _ (hmem.mp (next_mem _ _ hfirst))).symm
  choose grant hgrantMem hgrant using hgrant
  let turns (k : Nat) : cfg.Person := grant (talk.hub k).arbitration (talk.sender k).name
  have hturns (k : Nat) (hk : k < messages) : (talk.hub k).arbitration.next cfg.contacts
      (talk.sender k).name online = (some (turns k), (talk.hub (k + 1)).arbitration) :=
    Prod.ext (hgrant _ _) (talk.arbitration_succ hk).symm
  have hnext (k : Nat) (hk : k + 1 < messages) : turns (k + 1) =
      (cfg.members online).next (turns k) (hgrantMem _ _) := by
    have hstate := (Prod.ext_iff.mp ((hturns k (by omega)).symm.trans
      (Arbitration.next_eq_some (hgrant _ _)))).2
    have hspeaker : (talk.sender (k + 1)).name = (cfg.contact (turns k)).name :=
      (talk.speaking (k + 1) hk).trans (congrArg Arbitration.currentSpeaker hstate)
    have hafter := next_after (hgrantMem _ _) (hnames (turns k) (hgrantMem _ _))
      (congrArg Arbitration.nextIndex hstate)
    rw [← hspeaker] at hafter
    exact Option.some.inj ((hgrant _ _).symm.trans hafter)
  refine ⟨turns, hturns, fun start hstart ↦ ?_⟩
  exact RoundRobin.perm_window nodup_members (hgrantMem _ _)
    fun i hi ↦ ⟨hgrantMem _ _, hnext (start + i) (by omega)⟩

/-! ## Two conversations -/

/-- The hub in a conversation in which every section has the same input. -/
def rehearse (input : Env) (start : Hub cfg) (sender : Nat → Connection cfg) : Nat → Hub cfg
  | 0 => start
  | k + 1 => ((handleConnection (sender k)).finish input (rehearse input start sender k)).2

/-- Such a conversation, of people who keep saying hello. -/
def Conversation.rehearsed (input : Env) (start : Hub cfg) (sender : Nat → Connection cfg)
    (hline : ∀ k, (sender k).line = some (Bytes.ofAscii "SAY hello"))
    (hspeaking : ∀ k < messages, (sender k).name =
      (rehearse input start sender k).arbitration.currentSpeaker)
    (honline : ∀ k < messages, (handleConnection (sender k)).Throughout (Steady online) input
      (rehearse input start sender k)) :
    Conversation cfg online messages where
  hub := rehearse input start sender
  sender
  unaddressed k _ := ⟨Bytes.ofAscii "hello", by
    rw [Connection.command, hline]
    exact ⟨rfl, rfl⟩⟩
  speaking := hspeaking
  leads k hk := leads_finish (honline k hk)

namespace small

/-- Everybody but the hub itself. -/
def guests (p : small.Person) : Bool := (small.contact p).role = .human

/-- Alice, bob and carol say hello, and alice again. -/
def greets (k : Nat) : Connection small :=
  call k ([alice, bob, carol].getD k alice) "SAY hello"

/-- Their conversation. -/
def greetings : Conversation small guests 3 :=
  .rehearsed cutOff { start with online := guests } greets (fun _ ↦ rfl) (by decide +kernel)
    (by decide +kernel)

end small

/-- Alice, bob and carol each have one turn. -/
theorem turns_fair_greetings : ∃ turns : Nat → small.Person,
    (∀ k < 3, (small.greetings.hub k).arbitration.next small.contacts (small.greets k).name
      small.guests = (some (turns k), (small.greetings.hub (k + 1)).arbitration)) ∧
    ((List.range 3).map turns).Perm [small.alice, small.bob, small.carol] := by
  obtain ⟨turns, hturns, hfair⟩ :=
    turns_fair small.greetings (by decide +kernel) (by decide +kernel)
  have hwindow := hfair 0 (by decide +kernel)
  simp only [Nat.zero_add] at hwindow
  exact ⟨turns, hturns, hwindow⟩

/-- A council of three AIs, two of whom have the same name. -/
def twins : Config where
  name := .snprintf (Bytes.ofAscii "bob")
  isHub := true
  presenceSeconds := 60
  contacts :=
    [⟨.snprintf (Bytes.ofAscii "ann"), .ai, 0⟩, ⟨.snprintf (Bytes.ofAscii "ann"), .ai, 0⟩,
      ⟨.snprintf (Bytes.ofAscii "bob"), .ai, 0⟩]
  logs _ := []

namespace twins

def ann : twins.Person := ⟨0, by decide⟩
def bob : twins.Person := ⟨2, by decide⟩

/-- Bob, the first ann and bob again say hello. -/
def greets (k : Nat) : Connection twins :=
  ⟨k, [bob, ann, bob].getD k bob, some (Bytes.ofAscii "SAY hello")⟩

/-- Their conversation, with everybody online. -/
def greetings : Conversation twins (fun _ ↦ true) 3 :=
  .rehearsed small.noon { Hub.boot twins (twins.contact bob).name none (fun _ ↦ 0) with
    online := fun _ ↦ true } greets (fun _ ↦ rfl) (by decide +kernel) (by decide +kernel)

end twins

/-- **Of two who have the same name and sit next to each other only the first has a turn.** -/
theorem twin_passed_over : 2 ≤ (twins.members fun _ ↦ true).length ∧
    ∃ turns : Nat → twins.Person,
      (∀ k < 3, (twins.greetings.hub k).arbitration.next twins.contacts (twins.greets k).name
        (fun _ ↦ true) = (some (turns k), (twins.greetings.hub (k + 1)).arbitration)) ∧
      ¬ ((List.range (twins.members fun _ ↦ true).length).map turns).Perm
        (twins.members fun _ ↦ true) := by
  refine ⟨by decide +kernel, fun k ↦ [twins.ann, twins.bob, twins.ann].getD k twins.ann,
    fun k hk ↦ ?_, ?_⟩
  · have hgrant : ∀ k < 3, ((twins.greetings.hub k).arbitration.next twins.contacts
        (twins.greets k).name fun _ ↦ true).1 =
        some ([twins.ann, twins.bob, twins.ann].getD k twins.ann) := by decide +kernel
    exact Prod.ext (hgrant k hk) (twins.greetings.arbitration_succ hk).symm
  · decide +kernel

end Noobia.Council
