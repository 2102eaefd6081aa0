import Noobia.Council.Reading
import Noobia.Council.Sections
import Noobia.Council.Wire

/-!
# The turn after a restart

Whose turn it is is kept in memory, and the transcript is what is left of it when the service is
started again: `transcript_last_speaker` goes through the records and takes the last grant for the
turn.  So every function that writes the turn has to leave a record from which the same turn is
read.

Here commands are served one at a time.  While a command is being served the turn may be ahead of
the transcript, which is what `Due` says; `Kept` says that it is not.  The functions of the service
lead from `Kept` to `Kept`, with one exception.  When `arbitration_next` finds nobody to give the
turn to it takes it from the one who has it, and neither `relay_message` nor `send_status` writes
that down. `Orderly` excludes this, and `turn_survives` says that it is all there is to exclude.
-/

namespace Noobia.Council

open List Bytes

open Routine

/-! ## Records that hand the turn on -/

/-- A record that is one piece and has no tab too many is read as what it is. -/
theorem Record.readSpeaker_line {r : Record} (hline : r.OneLine) (hspeaker : r.speaker.Plain)
    (hmessage : 9 ∉ r.message) (speaker : Name) :
    readSpeaker speaker (r.text ++ [10]) =
      if r.event = .conversationEnd then .empty
      else
        match grantValue (r.text ++ [10]) with
        | none => speaker
        | some value =>
          .snprintf ((textAfter " -> " (Stdio.chomp value)).getD (Stdio.chomp value)) := by
  have hend : textAfter "\tconversation-end\t" (r.text ++ [10]) = _ :=
    after_line (show ofAscii "conversation-end" ∈ controlWords by decide) hspeaker hmessage
  have hevent : r.event.text = ofAscii "conversation-end" ↔ r.event = .conversationEnd := by
    cases r.event <;> decide
  rw [readSpeaker, text_line hline, hend]
  by_cases h : r.event = .conversationEnd
  · rw [if_pos h, if_pos (hevent.mpr h), if_pos Option.isSome_some]
  rw [if_neg h, if_neg (mt hevent.mp h)]
  refine (if_neg (by simp)).trans ?_
  cases grantValue (r.text ++ [10]) with
  | none | some value => rfl

section

variable {r : Record} (hline : r.OneLine) (hfits : r.Fits) (hspeaker : r.speaker.Plain)

include hline hfits hspeaker

theorem Record.hands_of_grantValue {name : Name} (hmessage : 9 ∉ r.message) (hname : name.Clear)
    (hevent : r.event ≠ .conversationEnd)
    (hvalue : grantValue (r.text ++ [10]) = some (name.bytes ++ [10])) : r.Hands name := by
  intro speaker
  rw [pieces_of_fits hline hfits, foldl_cons, foldl_nil,
    readSpeaker_line hline hspeaker hmessage, if_neg hevent, hvalue]
  dsimp only
  rw [hname.chomp, hname.after, Option.getD_none, Name.snprintf_bytes]

theorem Record.hands_grant {name : Name} (hevent : r.event = .grant) (hname : name.Clear)
    (hmessage : r.message = name.bytes) : r.Hands name := by
  have htab : 9 ∉ r.message := hmessage ▸ hname.line.1
  refine hands_of_grantValue hline hfits hspeaker htab hname (by rw [hevent]; nofun) ?_
  rw [grantValue_line hspeaker htab, hevent, hmessage]

theorem Record.hands_offlineGrant {current next : Name} (hevent : r.event = .offlineGrant)
    (hcurrent : current.Clear) (hnext : next.Clear)
    (hmessage : r.message = current.bytes ++ ofAscii " -> " ++ next.bytes) : r.Hands next := by
  have htab : 9 ∉ r.message := by
    rw [hmessage, mem_append, mem_append]
    rintro ((h | h) | h)
    · exact hcurrent.line.1 h
    · revert h
      decide
    · exact hnext.line.1 h
  refine hands_of_grantValue hline hfits hspeaker htab hnext (by rw [hevent]; nofun) ?_
  rw [grantValue_line hspeaker htab, hevent, hmessage]
  dsimp only
  rw [append_assoc _ _ [10], after_arrow hcurrent.arrow, Option.getD_some]

theorem Record.hands_conversationEnd (hevent : r.event = .conversationEnd)
    (hmessage : 9 ∉ r.message) : r.Hands .empty := by
  intro speaker
  rw [pieces_of_fits hline hfits, foldl_cons, foldl_nil,
    readSpeaker_line hline hspeaker hmessage, if_pos hevent]

end

/-! ## One command at a time -/

variable {cfg : Config}

/-- A configuration whose names cannot be mistaken for anything else in the transcript. -/
structure Config.Legible (cfg : Config) : Prop where
  name : cfg.name.Plain
  contacts : ∀ p, (cfg.contact p).name.Plain ∧
    ¬ Bytes.ofAscii " ->" <:+: (cfg.contact p).name.bytes

/-- Nobody has the turn, or there is somebody it can be given to after `previous`. -/
def Hub.Relieved (s : Hub cfg) (previous : Name) : Prop :=
  s.arbitration.currentSpeaker.isEmpty = true ∨
    ∃ p, s.online p = true ∧ (cfg.contact p).name ≠ previous
  deriving Decidable

/-- After whom somebody is to be found for the turn, if the command leaves it to
`arbitration_next`. -/
def Hub.previous (s : Hub cfg) (c : Connection cfg) : Option Name :=
  match c.command with
  | some (.say message) | some (.initiate message) =>
    if (messageTarget cfg message).1 = none then some c.name else none
  | some .status => some s.arbitration.currentSpeaker
  | _ => none

/-- A section that leaves the transcript as the restart expects it: the log can be opened, its lines
fit the buffer, and the turn is not taken away for want of somebody to give it to. -/
structure Orderly (c : Connection cfg) (i : Env) (s t : Hub cfg) : Prop where
  disk : i.disk = true
  fits : ∀ r ∈ t.records .transcript, r.Fits
  finds : t.turn ≠ s.turn → ∀ previous ∈ s.previous c, s.Relieved previous

instance (c : Connection cfg) (i : Env) (s t : Hub cfg) : Decidable (Orderly c i s t) :=
  decidable_of_iff (i.disk = true ∧ (∀ r ∈ t.records .transcript, r.Fits) ∧
      (t.turn ≠ s.turn → ∀ previous ∈ s.previous c, s.Relieved previous))
    ⟨fun ⟨disk, fits, finds⟩ ↦ ⟨disk, fits, finds⟩, fun ⟨disk, fits, finds⟩ ↦ ⟨disk, fits, finds⟩⟩

/-- The commands that can change the turn, with no tab in what they say. -/
def Connection.Asks (c : Connection cfg) : Prop :=
  match c.command with
  | some (.say text) | some (.initiate text) | some (.endPropose text) | some (.endVote text) =>
    9 ∉ text
  | some (.grant name) => ∃ p, name = (cfg.contact p).name.bytes
  | some .status => True
  | _ => False

/-- One command after the other has been served, with sections that are as `T` has it. -/
inductive Serves (T : Connection cfg → Env → Hub cfg → Hub cfg → Prop) :
    Hub cfg → Hub cfg → Prop
  | start (s : Hub cfg) : Serves T s s
  | serve {s t u : Hub cfg} (c : Connection cfg) (hst : Serves T s t) (hread : c.Read)
    (hasks : c.Asks) (htu : (handleConnection c).Leads (T c) t () u) : Serves T s u

/-! ## The turn and the transcript -/

/-- The turn read from the transcript is the turn in memory. -/
structure Kept (s : Hub cfg) : Prop where
  lines : ∀ r ∈ s.records .transcript, r.OneLine
  clear : s.arbitration.currentSpeaker.Clear
  faithful : lastSpeaker s.transcript = s.arbitration.currentSpeaker

/-- The turn has been given to somebody and the record of it is due. -/
structure Due (name : Name) (s : Hub cfg) : Prop where
  lines : ∀ r ∈ s.records .transcript, r.OneLine
  speaker : s.arbitration.currentSpeaker = name

/-- Nothing has happened to the turn, in memory or in the transcript. -/
def Hub.Similar (s t : Hub cfg) : Prop :=
  t.arbitration = s.arbitration ∧ ∃ new, t.records .transcript = s.records .transcript ++ new ∧
    ∀ r ∈ new, r.OneLine ∧ r.Mute

variable {event : LogEvent}

section

variable {s t : Hub cfg} {c : Connection cfg} {name : Name}

theorem Hub.Similar.lines (h : s.Similar t) (hs : ∀ r ∈ s.records .transcript, r.OneLine) :
    ∀ r ∈ t.records .transcript, r.OneLine := by
  obtain ⟨-, new, hnew, hmute⟩ := h
  intro r hr
  rw [hnew, mem_append] at hr
  exact hr.elim (hs r) fun hr ↦ (hmute r hr).1

theorem Kept.similar (hs : Kept s) (h : s.Similar t) : Kept t := by
  obtain ⟨harbitration, new, hnew, hmute⟩ := id h
  refine ⟨h.lines hs.lines, harbitration ▸ hs.clear, ?_⟩
  rw [Hub.transcript, hnew, lastSpeaker_append hs.lines fun r hr ↦ (hmute r hr).1,
    foldl_of_mute hmute, harbitration]
  exact hs.faithful

theorem Due.similar (hs : Due name s) (h : s.Similar t) : Due name t :=
  ⟨h.lines hs.lines, h.1 ▸ hs.speaker⟩

theorem Due.hands (hs : Due name s) (hname : name.Clear) {r : Record} (hr : r.OneLine)
    (hhands : r.Hands name) (hrecords : t.records .transcript = s.records .transcript ++ [r])
    (harbitration : t.arbitration = s.arbitration) : Kept t := by
  have hspeaker : t.arbitration.currentSpeaker = name := harbitration ▸ hs.speaker
  have hnew : ∀ r' ∈ [r], r'.OneLine := by simpa using hr
  refine ⟨fun r' hr' ↦ ?_, hspeaker ▸ hname, ?_⟩
  · rw [hrecords, mem_append] at hr'
    exact hr'.elim (hs.lines r') (hnew r')
  · rw [Hub.transcript, hrecords, lastSpeaker_append hs.lines hnew, flatMap_singleton, hhands,
      hspeaker]

/-! ## Sections that leave it alone -/

/-- The kinds of things that change neither the turn nor the transcript. -/
def Kind.Quiet (k : Kind) : Prop := k ≠ .move ∧ k ≠ .settle ∧ k ≠ .record ∧ k ≠ .finale
  deriving Decidable

theorem Section.similar {i : Env} (h : Section c Kind.Quiet i s t) : s.Similar t := by
  have hsame (u : Hub cfg) (harbitration : u.arbitration = s.arbitration)
      (hrecords : u.records = s.records) : s.Similar u :=
    ⟨harbitration, [], by rw [hrecords, append_nil], nofun⟩
  cases h with
  | append log record proposal h =>
    obtain ⟨stamp, speaker, event, message⟩ := record
    cases event <;> simp [Kind.Quiet, LogEvent.kind] at h
  | move arbitration h => exact absurd rfl h.1
  | settle speaker hmove => exact absurd rfl hmove.1
  | reserve now =>
    rw [Hub.reserve]
    split
    · exact hsame _ rfl rfl
    · exact hsame _ rfl rfl
  | _ => exact hsame _ rfl rfl

variable {α : Type} {m : Handler cfg α}

theorem Kept.quiet (hs : Kept s) (hm : m.Takes (Section c Kind.Quiet)) :
    m.Alone (Orderly c) s fun _ ↦ Kept :=
  hm.alone (fun _ _ _ _ h hs ↦ hs.similar h.similar) hs

theorem Due.quiet (hs : Due name s) (hm : m.Takes (Section c Kind.Quiet)) :
    m.Alone (Orderly c) s fun _ ↦ Due name :=
  hm.alone (fun _ _ _ _ h hs ↦ hs.similar h.similar) hs

/-! ## Records -/

theorem clear_empty : Name.empty.Clear := ⟨by decide, by decide⟩

theorem eq_empty_of_isEmpty (h : name.isEmpty = true) : name = .empty := by
  rw [← Name.snprintf_bytes name, List.isEmpty_iff.mp h]
  rfl

theorem Name.Clear.without (h : name.Clear) : Without [0, 9, 10] name.bytes := by
  simp only [Without, forall_mem_cons]
  exact ⟨fun hzero ↦ name.ne_zero 0 hzero rfl, h.line.1, h.line.2.1, nofun⟩

/-- What is appended is in the transcript and its line fits. -/
theorem append_alone {speaker : Name} {message : Bytes} {proposal : Nat}
    {Q : Hub cfg → Prop} (h : ∀ (t : Hub cfg) (now : Nat),
      Record.Fits ⟨now, speaker, event, message⟩ →
      t.records .transcript = s.records .transcript ++ [⟨now, speaker, event, message⟩] →
      t.arbitration = s.arbitration → Q t) :
    (transcriptAppend c .transcript speaker event message proposal).Alone (Orderly c) s
      fun _ ↦ Q := by
  refine alone_change fun i hi ↦ ?_
  rw [if_pos hi.disk] at hi ⊢
  have hrecords : (s.append c .transcript ⟨i.now, speaker, event, message⟩ proposal).records
      .transcript = s.records .transcript ++ [⟨i.now, speaker, event, message⟩] := by
    simp [Hub.append]
  refine h _ i.now (hi.fits _ ?_) hrecords rfl
  rw [hrecords]
  exact mem_append_right _ (mem_singleton_self _)

end

/-! ## The functions of the service -/

/-- Those the records are about. -/
def Config.Known (cfg : Config) (name : Name) : Prop :=
  name = cfg.name ∨ ∃ p, name = (cfg.contact p).name

section

variable (hloaded : cfg.Loaded) (hcfg : cfg.Legible) {s : Hub cfg} {c : Connection cfg}

include hloaded hcfg

theorem clear_contact (p : cfg.Person) : (cfg.contact p).name.Clear := by
  have hlow (b : UInt8) (hb : b < 32) : b ∉ (cfg.contact p).name.bytes := fun h ↦
    absurd (hloaded.contacts p b h) (UInt8.not_le.mpr hb)
  exact ⟨⟨hlow 9 (by decide), hlow 10 (by decide), hlow 13 (by decide)⟩, (hcfg.contacts p).2⟩

variable {speaker : Name} {message : Bytes}

omit hloaded in
theorem plain_of_known (h : cfg.Known speaker) : speaker.Plain := by
  rcases h with rfl | ⟨p, rfl⟩
  · exact hcfg.name
  · exact (hcfg.contacts p).1

omit hcfg in
theorem oneLine_of_known (h : cfg.Known speaker) (hmessage : Without [0, 9, 10] message) (now : Nat)
    (event : LogEvent) : Record.OneLine ⟨now, speaker, event, message⟩ :=
  Record.Written.oneLine hloaded ⟨h, hmessage 0 (by decide), hmessage 10 (by decide)⟩

/-- A record of something that is not about the turn. -/
theorem append_similar (hspeaker : cfg.Known speaker)
    (hevent : event.text ∉ controlWords) (hmessage : Without [0, 9, 10] message) (proposal : Nat) :
    (transcriptAppend c .transcript speaker event message proposal).Alone
      (Orderly c) s fun _ t ↦ s.Similar t := by
  refine append_alone fun t now _ hrecords harbitration ↦ ⟨harbitration, _, hrecords, fun r hr ↦ ?_⟩
  rw [mem_singleton.mp hr]
  exact ⟨oneLine_of_known hloaded hspeaker hmessage now event,
    Record.mute_of_not_mem (plain_of_known hcfg hspeaker) hevent (hmessage 9 (by decide))⟩

theorem append_grant (hspeaker : cfg.Known speaker) {name : Name} (hname : name.Clear)
    (hs : Due name s) (proposal : Nat) :
    (transcriptAppend c .transcript speaker .grant name.bytes proposal).Alone (Orderly c) s
      fun _ ↦ Kept := by
  refine append_alone fun t now hfits hrecords harbitration ↦ ?_
  have hline := oneLine_of_known hloaded hspeaker hname.without now .grant
  exact hs.hands hname hline
    (Record.hands_grant hline hfits (plain_of_known hcfg hspeaker) rfl hname rfl) hrecords
    harbitration

/-! ### Messages -/

/-- What holds after the turn may have been written: if somebody has got it the record is due. -/
def Moved (next : Option cfg.Person) (s : Hub cfg) : Prop :=
  match next with
  | none => Kept s
  | some p => Due (cfg.contact p).name s

section

variable (hs : Kept s)

include hs

omit hloaded hcfg in
theorem passTurn_alone {previous : Name} (h : s.previous c = some previous) :
    (passTurn c previous).Alone (Orderly c) s Moved := by
  refine alone_atomic fun i hi ↦ ?_
  have hrelieved := hi.finds (Nat.succ_ne_self _) previous h
  rcases s.arbitration.next_spec cfg.contacts previous s.online with
    ⟨p, hnext, -, -, hspeaker⟩ | ⟨hnext, hnobody, hspeaker⟩
  · simp only [hnext]
    exact ⟨hs.lines, hspeaker⟩
  -- there was nobody to give it to, so nobody has had it
  have hfree : s.arbitration.currentSpeaker = .empty := by
    rcases hrelieved with hempty | ⟨p, honline, hne⟩
    · exact eq_empty_of_isEmpty hempty
    · exact absurd (hnobody p honline) hne
  simp only [hnext]
  refine ⟨hs.lines, ?_, ?_⟩
  · exact (hspeaker.trans hfree.symm) ▸ hs.clear
  · exact hs.faithful.trans (hfree.trans hspeaker.symm)

omit hloaded hcfg in
theorem moveTurn_alone {target : Option cfg.Person} (next : Option cfg.Person)
    (h : target = none → s.previous c = some c.name) :
    (moveTurn c target next).Alone (Orderly c) s Moved := by
  cases target with
  | none => exact passTurn_alone hs (h rfl)
  | some _ =>
    cases next with
    | none => exact alone_pure hs
    | some p =>
      refine alone_bind (R := fun _ ↦ Due (cfg.contact p).name) (alone_change fun i _ ↦ ?_)
        fun _ t ht ↦ alone_pure ht
      exact ⟨hs.lines, Name.snprintf_bytes _⟩

theorem relayMessage_alone {message : Bytes}
    (hc : c.command = some (.say message) ∨ c.command = some (.initiate message)) :
    (relayMessage c message).Alone (Orderly c) s fun _ ↦ Kept := by
  have hprevious (t : Hub cfg) (htarget : (messageTarget cfg message).1 = none) :
      t.previous c = some c.name := by
    rcases hc with hc | hc
    · rw [Hub.previous, hc]
      exact if_pos htarget
    · rw [Hub.previous, hc]
      exact if_pos htarget
  refine alone_ite (fun _ ↦ alone_pure hs) fun _ ↦ alone_ite (fun _ ↦ alone_pure hs) fun _ ↦ ?_
  refine alone_bind (R := fun _ ↦ Kept) (hs.quiet (reachHuman_takes _)) fun next t ht ↦ ?_
  refine alone_bind (R := fun _ ↦ Kept)
    (ht.quiet (takes_foldlM (deliverTo_takes (by decide) _ _) _ _)) fun next t ht ↦ ?_
  refine alone_bind (moveTurn_alone ht next (hprevious t)) fun next t ht ↦ ?_
  cases next with
  | none => exact alone_pure ht
  | some p =>
    refine alone_bind (R := fun _ ↦ Due (cfg.contact p).name)
      (Due.quiet ht (announce_takes (by decide) _ _)) fun _ t ht ↦ ?_
    refine alone_bind (R := fun _ ↦ Kept) (append_grant hloaded hcfg (.inl rfl)
      (clear_contact hloaded hcfg p) ht 0) fun _ t ht ↦ alone_pure ht

theorem acceptMessage_alone {message : Bytes} (hmessage : Without [0, 9, 10] message)
    (hevent : event.text ∉ controlWords) (reserved : Bool)
    (hc : c.command = some (.say message) ∨ c.command = some (.initiate message)) :
    (acceptMessage c message event reserved).Alone (Orderly c) s fun _ ↦ Kept := by
  refine alone_bind (R := fun _ ↦ Kept) (relayMessage_alone hloaded hcfg hs hc)
    fun outcome t ht ↦ ?_
  cases outcome with
  | routed =>
    refine alone_bind (R := fun _ ↦ Kept) ((append_similar hloaded hcfg (.inr ⟨c.person, rfl⟩)
      hevent hmessage 0).mono fun _ u hu ↦ ht.similar hu) fun _ t ht ↦ ?_
    exact ht.quiet (takes_bind (markActivity_takes (by decide)) fun _ ↦ send_takes (by decide) _)
  | targetOffline | targetUnknown | targetSelf =>
    exact ht.quiet (rejectMessage_takes (by decide) (fun _ ↦ by decide) _)

/-! ### Questions -/

theorem passOfflineTurn_alone (hc : c.command = some .status) :
    (passOfflineTurn c s.arbitration.currentSpeaker).Alone (Orderly c) s fun _ ↦ Kept := by
  have hcurrent := hs.clear
  generalize hspeaker : s.arbitration.currentSpeaker = current at hcurrent ⊢
  have hquiet : (holderOnline current).Takes (Section c Kind.Quiet) := holderOnline_takes current
  refine alone_bind (R := fun _ t ↦ Kept t ∧ t.arbitration.currentSpeaker = current)
    (hquiet.alone ?_ ⟨hs, hspeaker⟩) fun live t ht ↦ alone_ite (fun _ ↦ alone_pure ht.1) fun _ ↦ ?_
  · rintro i t u - h ⟨ht, hspeaker⟩
    exact ⟨ht.similar h.similar, h.similar.1 ▸ hspeaker⟩
  have hprevious : t.previous c = some current := by
    rw [Hub.previous, hc, ← ht.2]
  refine alone_bind (passTurn_alone ht.1 hprevious) fun next u hu ↦ ?_
  cases next with
  | none => exact alone_pure hu
  | some p =>
    refine alone_bind (R := fun _ ↦ Due (cfg.contact p).name)
      (Due.quiet hu (announce_takes (by decide) _ _)) fun _ u hu ↦ ?_
    refine append_alone fun v now hfits hrecords harbitration ↦ ?_
    have hnext := clear_contact hloaded hcfg p
    have harrow : Without [0, 9, 10] (ofAscii " -> ") := by decide
    have hline := oneLine_of_known hloaded (.inl rfl)
      ((hcurrent.without.append harrow).append hnext.without) now .offlineGrant
    exact hu.hands hnext hline
      (Record.hands_offlineGrant hline hfits hcfg.name rfl hcurrent hnext rfl) hrecords harbitration

theorem sendStatus_alone (hc : c.command = some .status) :
    (sendStatus c).Alone (Orderly c) s fun _ ↦ Kept := by
  refine alone_bind (R := fun _ ↦ Kept) (hs.quiet time_takes) fun now t ht ↦ ?_
  refine alone_bind (R := fun _ ↦ Kept) (ht.quiet
    (takes_foldlM (fun _ p ↦ sendPresence_takes (by decide) (by decide) now p) _ _))
    fun _ t ht ↦ ?_
  refine alone_bind (R := fun _ ↦ Kept) (ht.quiet (reply_takes (by decide) _)) fun _ t ht ↦ ?_
  refine alone_bind (R := fun current t ↦ Kept t ∧ current = t.arbitration.currentSpeaker)
    (alone_look ⟨ht, rfl⟩) ?_
  rintro current t ⟨ht, rfl⟩
  exact alone_ite (fun _ ↦ alone_pure ht) fun _ ↦ passOfflineTurn_alone hloaded hcfg ht hc

/-! ### Ending the conversation -/

theorem closureFinish_alone : (closureFinish c).Alone (Orderly c) s fun _ ↦ Kept := by
  refine alone_bind (R := fun _ ↦ Kept) (alone_look hs) fun id t ht ↦ ?_
  refine alone_bind (R := fun _ t ↦ (∀ r ∈ t.records .transcript, r.OneLine) ∧
    lastSpeaker t.transcript = .empty) (append_alone fun u now hfits hrecords _ ↦ ?_)
      fun _ u hu ↦ ?_
  · have hmessage := without_unanimous (List.Subset.refl [0, 9, 10]) id.1
    have hline := oneLine_of_known hloaded (.inl rfl) hmessage now .conversationEnd
    have hhands := Record.hands_conversationEnd hline hfits hcfg.name rfl
      (hmessage 9 (by decide))
    have hnew := forall_mem_singleton.mpr hline
    constructor
    · intro r hr
      rw [hrecords, mem_append] at hr
      exact hr.elim (ht.lines r) (hnew r)
    · rw [Hub.transcript, hrecords, lastSpeaker_append ht.lines hnew, flatMap_singleton,
        hhands]
  · refine alone_bind (R := fun _ ↦ Kept) (alone_change fun _ _ ↦ ?_) fun _ v hv ↦
      hv.quiet (releaseInitiation_takes (by decide))
    exact ⟨hu.1, clear_empty, hu.2⟩

theorem closeIfComplete_alone : (closeIfComplete c).Alone (Orderly c) s fun _ ↦ Kept :=
  alone_bind (R := fun _ ↦ Kept) (hs.quiet (closureComplete_takes _)) fun _ _ ht ↦
    alone_ite (fun _ ↦ closureFinish_alone hloaded hcfg ht) fun _ ↦ alone_pure ht

theorem cancelClosure_alone : (cancelClosure c).Alone (Orderly c) s fun _ ↦ Kept := by
  have hname := clear_contact hloaded hcfg c.person
  refine alone_bind (R := fun _ ↦ Due c.name) (alone_change fun _ _ ↦ ?_) fun _ t ht ↦ ?_
  · exact ⟨hs.lines, Name.snprintf_bytes _⟩
  refine alone_bind (R := fun _ ↦ Due c.name) ((append_similar hloaded hcfg (.inl rfl) (by decide)
    hname.without 0).mono fun _ u hu ↦ ht.similar hu) fun _ t ht ↦ ?_
  exact alone_bind (R := fun _ ↦ Kept) (append_grant hloaded hcfg (.inl rfl) hname ht 0)
    fun _ t ht ↦ ht.quiet (markActivity_takes (by decide))

theorem closurePropose_alone {reason : Bytes} (hreason : Without [0, 9, 10] reason)
    (hasTurn : Bool) : (closurePropose c reason hasTurn).Alone (Orderly c) s fun _ ↦ Kept := by
  refine alone_bind (R := fun _ ↦ Kept) (hs.quiet time_takes) fun now t ht ↦ ?_
  have hreply (u : Hub cfg) (hu : Kept u) (line : String) :
      (reply c line).Alone (Orderly c) u fun _ ↦ Kept := hu.quiet (reply_takes (by decide) _)
  refine alone_ite (fun _ ↦ hreply t ht _) fun _ ↦ alone_ite (fun _ ↦ hreply t ht _) fun _ ↦ ?_
  refine alone_bind (R := fun _ ↦ Kept) (ht.quiet (openClosure_takes (by decide) now))
    fun opened t ht ↦ alone_ite (fun _ ↦ hreply t ht _) fun _ ↦ ?_
  refine alone_bind (R := fun _ ↦ Kept) (alone_look ht) fun id t ht ↦ ?_
  have hdetail := without_proposal (List.Subset.refl [0, 9, 10]) hreason id.1
  refine alone_bind (R := fun _ ↦ Kept) ((append_similar hloaded hcfg (.inr ⟨c.person, rfl⟩)
    (by decide) hdetail _).mono fun _ u hu ↦ ht.similar hu) fun _ t ht ↦ ?_
  exact alone_bind (R := fun _ ↦ Kept) (ht.quiet (send_takes (by decide) _)) fun _ t ht ↦
    closeIfComplete_alone hloaded hcfg ht

omit hloaded hcfg in
theorem castVote_alone (close : Bool) {reason : Bytes} (hreason : Without [0, 9, 10] reason) :
    (castVote c close reason).Alone (Orderly c) s fun cast t ↦
      Kept t ∧ ∀ detail ∈ cast, Without [0, 9, 10] detail.1 := by
  refine alone_atomic fun i _ ↦ ?_
  split
  · exact ⟨hs, nofun⟩
  refine ⟨hs.similar ⟨rfl, [], by simp [Hub.vote, Hub.note], nofun⟩, fun detail hdetail ↦ ?_⟩
  rw [← Option.some.inj hdetail]
  exact without_vote (List.Subset.refl _) hreason _ close

theorem closureVote_alone {vote : Bytes} (hvote : Without [0, 9, 10] vote) :
    (closureVote c vote).Alone (Orderly c) s fun _ ↦ Kept := by
  rw [closureVote]
  split
  · exact hs.quiet (reply_takes (by decide) _)
  rename_i close _
  refine alone_bind (castVote_alone hs close
    (without_voteReason (List.Subset.refl _) hvote close)) fun cast t ht ↦ ?_
  obtain ⟨ht, hdetail⟩ := ht
  cases cast with
  | none => exact ht.quiet (reply_takes (by decide) _)
  | some detail =>
    refine alone_bind (R := fun _ ↦ Kept) ((append_similar hloaded hcfg (.inr ⟨c.person, rfl⟩)
      (by decide) (hdetail detail rfl) _).mono fun _ u hu ↦ ht.similar hu) fun _ t ht ↦ ?_
    refine alone_bind (R := fun _ ↦ Kept) (ht.quiet (send_takes (by decide) _)) fun _ t ht ↦ ?_
    exact alone_ite (fun _ ↦ closeIfComplete_alone hloaded hcfg ht) fun _ ↦
      cancelClosure_alone hloaded hcfg ht

end

/-! ### The handler -/

theorem handleCommand_alone (hhub : cfg.isHub = true) (hs : Kept s) (hread : c.Read)
    (hasks : c.Asks) (hasTurn : Bool) {command : Command} (hc : c.command = some command) :
    (handleCommand c hasTurn command).Alone (Orderly c) s fun _ ↦ Kept := by
  have hwithout (htab : 9 ∉ command.argument) : Without [0, 9, 10] command.argument := by
    simp only [Without, forall_mem_cons]
    exact ⟨(hread.argument hc).1, htab, (hread.argument hc).2, nofun⟩
  rw [Connection.Asks, hc] at hasks
  cases command with
  | status => exact sendStatus_alone hloaded hcfg hs hc
  | endPropose reason =>
    exact closurePropose_alone hloaded hcfg hs (hwithout hasks) hasTurn
  | endVote vote => exact closureVote_alone hloaded hcfg hs (hwithout hasks)
  | initiate message =>
    refine alone_bind (R := fun _ ↦ Kept) (hs.quiet (reserveInitiation_takes (by decide)))
      fun remaining t ht ↦ alone_ite (fun _ ↦ ht.quiet (send_takes (by decide) _)) fun _ ↦ ?_
    exact acceptMessage_alone hloaded hcfg ht (hwithout hasks) (by decide) _ (.inr hc)
  | say message =>
    refine alone_ite (fun _ ↦ hs.quiet (reply_takes (by decide) _)) fun _ ↦ ?_
    exact acceptMessage_alone hloaded hcfg hs (hwithout hasks) (by decide) _ (.inl hc)
  | grant name =>
    obtain ⟨p, rfl⟩ := hasks
    refine alone_ite (fun _ ↦ ?_) fun h ↦ absurd hhub h
    refine alone_bind (R := fun _ ↦ Due (cfg.contact p).name) (alone_change fun _ _ ↦ ?_)
      fun _ t ht ↦ ?_
    · exact ⟨hs.lines, Name.snprintf_bytes _⟩
    · exact alone_bind (R := fun _ ↦ Kept) (append_grant hloaded hcfg (.inr ⟨c.person, rfl⟩)
        (clear_contact hloaded hcfg p) ht 0) fun _ t ht ↦ ht.quiet (send_takes (by decide) _)
  | _ => exact hasks.elim

/-- A command leaves the turn as it is read from the transcript. -/
theorem handleConnection_alone (hhub : cfg.isHub = true) (hs : Kept s) (hread : c.Read)
    (hasks : c.Asks) : (handleConnection c).Alone (Orderly c) s fun _ ↦ Kept := by
  refine alone_bind (R := fun _ ↦ Kept) (hs.quiet markSeen_takes) fun _ t ht ↦ ?_
  refine alone_bind (R := fun _ ↦ Kept) ?_ fun _ t ht ↦ ht.quiet (networkClose_takes (by decide))
  rw [serveLine]
  split
  · exact alone_pure ht
  rename_i command hc
  exact alone_bind (R := fun _ ↦ Kept) (ht.quiet (checkTurn_takes (by decide)))
    fun hasTurn t ht ↦ handleCommand_alone hloaded hcfg hhub ht hread hasks hasTurn hc

theorem Serves.kept (hhub : cfg.isHub = true) (hs : Kept s) {t : Hub cfg}
    (h : Serves Orderly s t) : Kept t := by
  induction h with
  | start => exact hs
  | serve c _ hread hasks htu ih =>
    exact handleConnection_alone hloaded hcfg hhub ih hread hasks () _ htu

end

/-! ## The result -/

theorem boot_speaker (hhub : cfg.isHub = true) (restored : Name) (activity : Option Int)
    (logTime : Log → Nat) :
    (Hub.boot cfg restored activity logTime).arbitration.currentSpeaker = restored := by
  rw [Hub.boot, if_pos hhub]
  exact Name.snprintf_bytes restored

theorem kept_boot (hhub : cfg.isHub = true) (hlogs : ∀ r ∈ cfg.logs .transcript, r.OneLine)
    {restored : Name} (hrestored : lastSpeaker (logFile (cfg.logs .transcript)) = restored)
    (hclear : restored.Clear) (activity : Option Int) (logTime : Log → Nat) :
    Kept (Hub.boot cfg restored activity logTime) := by
  have hspeaker := boot_speaker hhub restored activity logTime
  exact ⟨hlogs, hspeaker.symm ▸ hclear, hrestored.trans hspeaker.symm⟩

/-- **The turn survives a restart.**  Commands are served one at a time, from the start of the hub
on.  If no name can be mistaken for a grant or the end of a conversation, every record reaches the
transcript and fits a line of it, and whenever an unaddressed message or a request for the status
passes the turn on there is somebody to pass it to, then after every command the turn that is read
from the transcript is the turn in memory, and it is the turn after a restart. -/
theorem turn_survives (hloaded : cfg.Loaded) (hcfg : cfg.Legible) (hhub : cfg.isHub = true)
    (hlogs : ∀ r ∈ cfg.logs .transcript, r.OneLine)
    (hrestored : (lastSpeaker (logFile (cfg.logs .transcript))).Clear) (activity : Option Int)
    (logTime : Log → Nat) {t : Hub cfg} (h : Serves Orderly
      (Hub.boot cfg (lastSpeaker (logFile (cfg.logs .transcript))) activity logTime) t) :
    lastSpeaker t.transcript = t.arbitration.currentSpeaker ∧
      ∀ activity' logTime', (Hub.boot { cfg with logs := t.records } (lastSpeaker t.transcript)
        activity' logTime').arbitration.currentSpeaker = t.arbitration.currentSpeaker := by
  have ht := Serves.kept hloaded hcfg hhub (kept_boot hhub hlogs rfl hrestored activity logTime) h
  refine ⟨ht.faithful, fun activity' logTime' ↦ ?_⟩
  exact (boot_speaker hhub _ activity' logTime').trans ht.faithful

namespace small

/-- The hub as it starts, with nothing in its transcript. -/
def fresh : Hub small := .boot small (lastSpeaker (logFile (small.logs .transcript))) none fun _ ↦ 0

/-- Somebody has connected and sent a line. -/
def call (socket : Nat) (who : small.Person) (line : String) : Connection small :=
  ⟨socket, who, some (Bytes.ofAscii line)⟩

/-- It is noon, and no other service can be reached. -/
def cutOff : Env := { noon with ok := false }

/-- Carol gives the turn to alice. -/
def granted : Hub small := ((handleConnection (call 0 carol "GRANT alice")).finish noon fresh).2

/-- Alice says something. -/
def spoken : Hub small := ((handleConnection (call 1 alice "SAY hello")).finish noon granted).2

theorem legible : small.Legible := ⟨by decide +kernel, by decide +kernel⟩

theorem call_read (socket : Nat) (who : small.Person) {line : String}
    (h : 10 ∉ ofAscii line ∧ 13 ∉ ofAscii line ∧
      (ofAscii line).length + 1 < messageLength) : (call socket who line).Read :=
  Connection.read_of_transmit ((transmit_eq _).trans (if_pos h)) nofun

end small

/-- Carol gives the turn to alice, who says something, and the turn is carol's: so says the
transcript, too. -/
theorem turn_survives_hello :
    small.spoken.arbitration.currentSpeaker = (small.contact small.carol).name ∧
      lastSpeaker small.spoken.transcript = small.spoken.arbitration.currentSpeaker := by
  have hgranted : Serves Orderly small.fresh small.granted :=
    .serve (small.call 0 small.carol "GRANT alice") (.start _)
      (small.call_read _ _ (by decide +kernel)) ⟨small.alice, by decide +kernel⟩
      (leads_finish (by decide +kernel))
  have hspoken : Serves Orderly small.fresh small.spoken :=
    .serve (small.call 1 small.alice "SAY hello") hgranted
      (small.call_read _ _ (by decide +kernel)) (show 9 ∉ ofAscii "hello" by decide)
      (leads_finish (by decide +kernel))
  exact ⟨by decide +kernel, (turn_survives small.loaded small.legible rfl nofun clear_empty none
    (fun _ ↦ 0) hspoken).1⟩

/-- **The turn is lost in a restart.**  Alice gives the turn to herself and says something to
everybody, but nobody else is there.  Then she no longer has the turn, and after a restart she
would. -/
theorem turn_taken_unrecorded : ∃ t : Hub small,
    Serves (fun _ i _ t ↦ i.disk = true ∧ ∀ r ∈ t.records .transcript, r.Fits) small.fresh t ∧
      t.arbitration.currentSpeaker = .empty ∧
      lastSpeaker t.transcript = (small.contact small.alice).name := by
  refine ⟨_, .serve (small.call 1 small.alice "SAY hello") (.serve
    (small.call 0 small.alice "GRANT alice") (.start _) (small.call_read _ _ (by decide +kernel))
    ⟨small.alice, by decide +kernel⟩ (leads_finish (i := small.cutOff) ?_))
    (small.call_read _ _ (by decide +kernel)) (show 9 ∉ ofAscii "hello" by decide)
    (leads_finish (i := small.cutOff) ?_), ?_, ?_⟩
  all_goals decide +kernel

end Noobia.Council
