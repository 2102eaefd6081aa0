import Noobia.Council.Reading
import Noobia.Council.Sections
import Noobia.Council.Wire

/-!
# What the hub writes

In its log there are only records the service has written, and what it writes comes from the lines
it reads, from the contact book and from numbers.  `Record.Genuine` says what follows for a single
record, and `served_genuine` that it holds of all records whatever the callers send and however
their handlers are interleaved.

The one thing that goes through the shared state on its way into a record is the name of the current
speaker, which `send_status` copies and later writes.  So the invariant is about that name, too.
-/

namespace Noobia.Council

open List

open Routine

variable {cfg : Config}

/-! ## Callers -/

/-- The thread started for a connection on which somebody sends these bytes. -/
def streamThread (socket : Nat) (call : cfg.Person × Bytes) : Handler cfg Unit :=
  connectionThread socket (call.1, (networkReadLine messageLength call.2).map Prod.fst)

/-- The hub after an interleaving of handlers, each of which has been sent some bytes. -/
def Hub.served (s : Hub cfg) (acts : List (Act (cfg.Person × Bytes) Env)) : Hub cfg :=
  (System.run streamThread ⟨s, []⟩ acts).shared

/-! ## Records -/

/-- The record is of something a participant has said. -/
def Record.Speech (r : Record) : Prop := r.event = .message ∨ r.event = .initiate
  deriving Decidable

/-- A record the service has written; what a participant has said is said by a contact. -/
structure Record.Genuine (cfg : Config) (r : Record) : Prop extends r.Written cfg where
  speech : r.Speech → ∃ p, r.speaker = (cfg.contact p).name

/-- All records are genuine, and the name of the current speaker can be written. -/
structure Hub.Genuine (s : Hub cfg) : Prop where
  records : ∀ log, ∀ r ∈ s.records log, r.Genuine cfg
  speaker : 10 ∉ s.arbitration.currentSpeaker.bytes

/-- A text that can be written. -/
abbrev Writable (text : Bytes) : Prop := Without [0, 10] text

theorem Writable.message {text : Bytes} (h : Writable text) : 0 ∉ text ∧ 10 ∉ text :=
  ⟨h 0 (by decide), h 10 (by decide)⟩

theorem Name.writable {name : Name} (h : 10 ∉ name.bytes) : Writable name.bytes := by
  simp only [Writable, Without, forall_mem_cons]
  exact ⟨fun hzero ↦ name.ne_zero 0 hzero rfl, h, nofun⟩

variable {command : Command}

theorem Connection.Read.writable {c : Connection cfg} (h : c.Read)
    (hc : c.command = some command) : Writable command.argument := by
  simp only [Writable, Without, forall_mem_cons]
  exact ⟨(h.argument hc).1, (h.argument hc).2, nofun⟩

variable {message : Bytes} {event : LogEvent}

theorem genuine_of_hub {now : Nat}
    (hevent : ¬ (event = .message ∨ event = .initiate)) (hmessage : Writable message) :
    Record.Genuine cfg ⟨now, cfg.name, event, message⟩ :=
  ⟨⟨.inl rfl, hmessage.message⟩, fun h ↦ absurd h hevent⟩

theorem genuine_of_caller {now : Nat} (c : Connection cfg)
    (hmessage : Writable message) : Record.Genuine cfg ⟨now, c.name, event, message⟩ :=
  ⟨⟨.inr ⟨c.person, rfl⟩, hmessage.message⟩, fun _ ↦ ⟨c.person, rfl⟩⟩

/-! ## Sections -/

/-- Every section keeps the records genuine. -/
abbrev genuine (cfg : Config) : Discipline (Hub cfg) := .keeping Hub.Genuine

/-- So does every section of the routine. -/
abbrev Handler.Honest {α : Type} (m : Handler cfg α) (k : Nat) (s : Hub cfg) : Prop :=
  m.Ok (genuine cfg) k (fun _ _ ↦ True) s

section

variable {s t : Hub cfg} {c : Connection cfg} {k : Nat} {α : Type}

theorem Hub.Genuine.of_eq (h : s.Genuine) (hrecords : t.records = s.records)
    (harbitration : t.arbitration = s.arbitration) : t.Genuine :=
  ⟨hrecords ▸ h.records, harbitration ▸ h.speaker⟩

theorem Hub.Genuine.append (h : s.Genuine) {r : Record} (hr : r.Genuine cfg) (log : Log)
    (proposal : Nat) : (s.append c log r proposal).Genuine := by
  refine ⟨fun log' r' hr' ↦ ?_, h.speaker⟩
  rcases eq_or_ne log' log with rfl | hne
  · have hmem : r' ∈ s.records log' ++ [r] := by simpa [Hub.append] using hr'
    rcases mem_append.mp hmem with hmem | hmem
    · exact h.records _ r' hmem
    · rw [mem_singleton.mp hmem]
      exact hr
  · exact h.records log' r' (by simpa [Hub.append, hne] using hr')

theorem genuine_atomic {f : Env → Hub cfg → α × Hub cfg} {Q : α → Prop}
    (h : ∀ i s, s.Genuine → (f i s).2.Genuine ∧ Q (f i s).1) :
    (atomic f).Ok (genuine cfg) k (fun a _ ↦ Q a) s :=
  ok_atomic (P := fun _ ↦ True) (fun _ _ h _ ↦ h) (fun _ _ _ h _ ↦ h) trivial
    fun i t _ ht _ ↦ ⟨(h i t ht).1, trivial, (h i t ht).2⟩

theorem genuine_change {f : Env → Hub cfg → Hub cfg} (h : ∀ i s, s.Genuine → (f i s).Genuine) :
    Handler.Honest (change f) k s :=
  genuine_atomic (Q := fun _ ↦ True) fun i s hs ↦ ⟨h i s hs, trivial⟩

theorem genuine_pure {a : α} {Q : α → Prop} (h : Q a) :
    (pure a : Handler cfg α).Ok (genuine cfg) k (fun a _ ↦ Q a) s :=
  ok_pure (fun _ _ h _ ↦ h) h

/-- A section that writes neither a record nor the turn. -/
theorem Section.genuine {i : Env} (hs : s.Genuine)
    (h : Section c (fun k ↦ k ≠ .move ∧ k ≠ .record ∧ k ≠ .finale) i s t) : t.Genuine := by
  cases h with
  | append log record proposal h =>
    obtain ⟨stamp, speaker, event, message⟩ := record
    cases event <;> simp [LogEvent.kind] at h
  | move arbitration h => exact absurd rfl h.1
  | settle speaker hmove => exact absurd rfl hmove.1
  | reserve now =>
    rw [Hub.reserve]
    split
    · exact hs.of_eq rfl rfl
    · exact hs.of_eq rfl rfl
  | _ => exact hs.of_eq rfl rfl

theorem quiet_genuine {m : Handler cfg α}
    (hm : m.Takes (Section c fun k ↦ k ≠ .move ∧ k ≠ .record ∧ k ≠ .finale)) : m.Honest k s :=
  hm.ok (fun _ _ h _ ↦ h) (fun _ _ _ _ hs _ h ↦ ⟨h.genuine hs, trivial, trivial⟩) trivial

theorem reply_genuine (line : String) : (reply c line).Honest k s :=
  quiet_genuine (reply_takes (by decide) _)

theorem append_genuine {speaker : Name}
    (h : ∀ now, Record.Genuine cfg ⟨now, speaker, event, message⟩) (log : Log) (proposal : Nat) :
    (transcriptAppend c log speaker event message proposal).Honest k s := by
  refine genuine_change fun i s hs ↦ ?_
  split
  · exact hs.append (h i.now) log proposal
  · exact hs

end

/-! ## The functions of the service -/

section

variable (hcfg : cfg.Loaded) {s : Hub cfg} {c : Connection cfg} {k : Nat}

theorem grantTurn_genuine {name : Bytes} (hname : 10 ∉ name) : (grantTurn c name).Honest k s :=
  genuine_change fun _ _ hs ↦ ⟨hs.records, fun h ↦
    hname (takeWhile_subset _ (mem_of_mem_take h))⟩

theorem settle_genuine {name : Bytes} (hname : 10 ∉ name) : (settle c name).Honest k s :=
  genuine_change fun _ _ hs ↦ ⟨hs.records, fun h ↦
    hname (takeWhile_subset _ (mem_of_mem_take h))⟩

include hcfg

theorem newline_not_mem (p : cfg.Person) : 10 ∉ (cfg.contact p).name.bytes :=
  fun h ↦ absurd (hcfg.contacts p 10 h) (by decide)

theorem passTurn_genuine (previous : Name) : (passTurn c previous).Honest k s := by
  refine genuine_atomic (Q := fun _ ↦ True) fun i s hs ↦ ⟨⟨hs.records, ?_⟩, trivial⟩
  rcases s.arbitration.next_spec cfg.contacts previous s.online with
    ⟨p, -, -, -, hspeaker⟩ | ⟨-, -, hspeaker⟩
  · change 10 ∉ (s.arbitration.next cfg.contacts previous s.online).2.currentSpeaker.bytes
    rw [hspeaker]
    exact newline_not_mem hcfg p
  · change 10 ∉ (s.arbitration.next cfg.contacts previous s.online).2.currentSpeaker.bytes
    rw [hspeaker]
    decide

theorem moveTurn_genuine (target next : Option cfg.Person) :
    (moveTurn c target next).Honest k s := by
  cases target with
  | none => exact passTurn_genuine hcfg _
  | some _ =>
    cases next with
    | none => exact genuine_pure (Q := fun _ ↦ True) trivial
    | some p =>
      exact ok_bind (grantTurn_genuine (newline_not_mem hcfg p)) fun _ _ _ ↦
        genuine_pure (Q := fun _ ↦ True) trivial

theorem relayMessage_genuine (message : Bytes) : (relayMessage c message).Honest k s := by
  have hpure (outcome : Routed) (t : Hub cfg) : (pure outcome : Handler cfg Routed).Honest k t :=
    genuine_pure (Q := fun _ ↦ True) trivial
  rw [relayMessage]
  dsimp only
  split
  · exact hpure _ s
  split
  · exact hpure _ s
  refine ok_bind (quiet_genuine (c := c) (reachHuman_takes _)) fun next t _ ↦ ?_
  refine ok_bind (quiet_genuine (takes_foldlM (deliverTo_takes (by decide) _ _) _ _))
    fun next t _ ↦ ?_
  refine ok_bind (moveTurn_genuine hcfg _ next) fun next t _ ↦ ?_
  cases next with
  | none => exact hpure _ t
  | some p =>
    refine ok_bind (quiet_genuine (announce_takes (by decide) _ _)) fun _ t _ ↦ ?_
    have hname := Name.writable (newline_not_mem hcfg p)
    exact ok_bind (append_genuine (fun now ↦ genuine_of_hub (by decide) hname) _ _) fun _ t _ ↦
      hpure _ t

theorem acceptMessage_genuine (hmessage : Writable message) (event : LogEvent)
    (reserved : Bool) : (acceptMessage c message event reserved).Honest k s := by
  refine ok_bind (relayMessage_genuine hcfg message) fun outcome t _ ↦ ?_
  cases outcome with
  | routed =>
    refine ok_bind (append_genuine (fun now ↦ genuine_of_caller c hmessage) _ _) fun _ t _ ↦ ?_
    exact quiet_genuine
      (takes_bind (markActivity_takes (by decide)) fun _ ↦ send_takes (by decide) _)
  | targetOffline | targetUnknown | targetSelf =>
    exact quiet_genuine (rejectMessage_takes (by decide) (fun _ ↦ by decide) _)

theorem passOfflineTurn_genuine {current : Name} (hcurrent : 10 ∉ current.bytes) :
    (passOfflineTurn c current).Honest k s := by
  refine ok_bind (quiet_genuine (c := c) (holderOnline_takes current)) fun live t _ ↦ ?_
  split
  · exact genuine_pure (Q := fun _ ↦ True) trivial
  refine ok_bind (passTurn_genuine hcfg current) fun next t _ ↦ ?_
  cases next with
  | none => exact genuine_pure (Q := fun _ ↦ True) trivial
  | some p =>
    refine ok_bind (quiet_genuine (announce_takes (by decide) _ _)) fun _ t _ ↦ ?_
    refine append_genuine (fun now ↦ genuine_of_hub (by decide) ?_) _ _
    have harrow : Writable (Bytes.ofAscii " -> ") := by decide
    exact ((Name.writable hcurrent).append harrow).append (Name.writable (newline_not_mem hcfg p))

theorem sendStatus_genuine : (sendStatus c).Honest k s := by
  refine ok_bind (quiet_genuine (c := c) time_takes) fun now t _ ↦ ?_
  refine ok_bind (quiet_genuine
    (takes_foldlM (fun _ p ↦ sendPresence_takes (by decide) (by decide) now p) _ _)) fun _ t _ ↦ ?_
  refine ok_bind (quiet_genuine (reply_takes (by decide) _)) fun _ t _ ↦ ?_
  refine ok_bind (genuine_atomic (Q := fun current : Name ↦ 10 ∉ current.bytes)
    fun _ t ht ↦ ⟨ht, ht.speaker⟩) fun current t hcurrent ↦ ?_
  split
  · exact genuine_pure (Q := fun _ ↦ True) trivial
  · exact passOfflineTurn_genuine hcfg hcurrent

omit hcfg in
theorem closureFinish_genuine : (closureFinish c).Honest k s := by
  refine ok_bind (quiet_genuine (c := c) (look_takes _)) fun id t _ ↦ ?_
  refine ok_bind (append_genuine (fun now ↦ genuine_of_hub (by decide)
    (without_unanimous (by decide) id.1)) _ _) fun _ t _ ↦ ?_
  exact ok_bind (settle_genuine not_mem_nil) fun _ t _ ↦
    quiet_genuine (releaseInitiation_takes (by decide))

omit hcfg in
theorem closeIfComplete_genuine : (closeIfComplete c).Honest k s := by
  refine ok_bind (quiet_genuine (c := c) (closureComplete_takes _)) fun complete t _ ↦ ?_
  split
  · exact closureFinish_genuine
  · exact genuine_pure (Q := fun _ ↦ True) trivial

theorem cancelClosure_genuine : (cancelClosure c).Honest k s := by
  have hname := newline_not_mem hcfg c.person
  have hrecord (event : LogEvent) (hevent : ¬ (event = .message ∨ event = .initiate))
      (t : Hub cfg) :
      (transcriptAppend c .transcript cfg.name event c.name.bytes 0).Honest k t :=
    append_genuine (fun now ↦ genuine_of_hub hevent (Name.writable hname)) _ _
  refine ok_bind (settle_genuine hname) fun _ t _ ↦ ?_
  refine ok_bind (hrecord _ (by decide) t) fun _ t _ ↦ ?_
  exact ok_bind (hrecord _ (by decide) t) fun _ t _ ↦ quiet_genuine (markActivity_takes (by decide))

omit hcfg in
theorem closurePropose_genuine {reason : Bytes} (hreason : Writable reason) (hasTurn : Bool) :
    (closurePropose c reason hasTurn).Honest k s := by
  refine ok_bind (quiet_genuine (c := c) time_takes) fun now t _ ↦ ?_
  split
  · exact reply_genuine _
  split
  · exact reply_genuine _
  refine ok_bind (quiet_genuine (openClosure_takes (by decide) now)) fun opened t _ ↦ ?_
  split
  · exact reply_genuine _
  refine ok_bind (quiet_genuine (c := c) (look_takes _)) fun id t _ ↦ ?_
  refine ok_bind (append_genuine (fun now ↦ genuine_of_caller c
    (without_proposal (by decide) hreason id.1)) _ _) fun _ t _ ↦ ?_
  exact ok_bind (quiet_genuine (send_takes (by decide) _)) fun _ t _ ↦ closeIfComplete_genuine

theorem closureVote_genuine {vote : Bytes} (hvote : Writable vote) :
    (closureVote c vote).Honest k s := by
  rw [closureVote]
  split
  · exact quiet_genuine (reply_takes (by decide) _)
  rename_i close _
  have hreason := without_voteReason (show ([0, 10] : Bytes) ⊆ [0, 9, 10] by decide) hvote close
  refine ok_bind (genuine_atomic (Q := fun cast : Option (Bytes × Nat) ↦
    ∀ detail ∈ cast, Writable detail.1) fun i t ht ↦ ?_) fun cast t hcast ↦ ?_
  · split
    · exact ⟨ht, by simp⟩
    refine ⟨ht.of_eq rfl rfl, fun detail hdetail ↦ ?_⟩
    rw [← Option.some.inj hdetail]
    exact without_vote (by decide) hreason _ close
  · cases cast with
    | none => exact quiet_genuine (reply_takes (by decide) _)
    | some detail =>
      refine ok_bind (append_genuine (fun now ↦ genuine_of_caller c (hcast detail rfl)) _ _)
        fun _ t _ ↦ ?_
      refine ok_bind (quiet_genuine (send_takes (by decide) _)) fun _ t _ ↦ ?_
      split
      · exact closeIfComplete_genuine
      · exact cancelClosure_genuine hcfg

omit hcfg in
theorem receiveFile_genuine (transfer : Transfer) {finish : Handler cfg Unit}
    (hfinish : ∀ t, finish.Honest k t) : (receiveFile c transfer finish).Honest k s := by
  cases transfer with
  | header | tooLarge | hungUp => exact reply_genuine _
  | digest | store => exact ok_bind (reply_genuine _) fun _ t _ ↦ reply_genuine _
  | targetUnknown | targetOffline | stored => exact ok_bind (reply_genuine _) fun _ t _ ↦ hfinish t

omit hcfg in
theorem fileStored_genuine (log : Log) (text : FileText) :
    (fileStored c log text.bytes).Honest k s := by
  have htext : Writable text.bytes := by
    simp only [Writable, Without, forall_mem_cons]
    exact ⟨text.oneLine.1, text.oneLine.2, nofun⟩
  refine ok_bind (append_genuine (fun now ↦ genuine_of_caller c htext) _ _) fun _ t _ ↦ ?_
  exact quiet_genuine
    (takes_bind (activityMark_takes (by decide)) fun _ ↦ reply_takes (by decide) _)

omit hcfg in
theorem fileCommand_genuine (hasTurn : Bool) : (fileCommand c hasTurn).Honest k s := by
  rw [fileCommand]
  split
  · exact reply_genuine _
  split
  · exact reply_genuine _
  refine ok_bind (genuine_atomic (Q := fun _ : Transfer × FileText ↦ True)
    fun _ _ ht ↦ ⟨ht, trivial⟩) fun outcome t _ ↦ ?_
  obtain ⟨transfer, text⟩ := outcome
  have hstored (t : Hub cfg) := receiveFile_genuine (c := c) (k := k) (s := t) transfer
    fun u ↦ fileStored_genuine (c := c) (s := u) .transcript text
  cases transfer with
  | targetUnknown => exact reply_genuine _
  | targetOffline =>
    refine receiveFile_genuine _ fun u ↦ ok_bind (append_genuine (fun now ↦ genuine_of_caller c ?_)
      _ _) fun _ v _ ↦ reply_genuine _
    simp only [Writable, Without, forall_mem_cons]
    exact ⟨text.oneLine.1, text.oneLine.2, nofun⟩
  | header | tooLarge | hungUp | digest | store | stored => exact hstored t

theorem handleCommand_genuine (hread : c.Read) (hasTurn : Bool) (hc : c.command = some command) :
    (handleCommand c hasTurn command).Honest k s := by
  have hargument := hread.writable hc
  have hreply (line : Bytes) (t : Hub cfg) : (send c line).Honest k t :=
    quiet_genuine (send_takes (by decide) _)
  cases command with
  | file => exact fileCommand_genuine hasTurn
  | store =>
    rw [handleCommand, storeCommand]
    split
    · exact hreply _ s
    exact ok_bind (genuine_atomic (Q := fun _ : Transfer × FileText ↦ True)
      fun _ _ ht ↦ ⟨ht, trivial⟩) fun outcome t _ ↦
      receiveFile_genuine _ fun u ↦ fileStored_genuine .inbox outcome.2
  | ping | unknown => exact hreply _ s
  | busy =>
    exact ok_bind (quiet_genuine (busyRemaining_takes (c := c) (by decide))) fun _ t _ ↦ hreply _ t
  | status => exact sendStatus_genuine hcfg
  | events offset => exact quiet_genuine (sendEvents_takes (by decide) offset)
  | context => exact quiet_genuine (sendContext_takes (by decide))
  | endPropose reason => exact closurePropose_genuine hargument hasTurn
  | endVote vote => exact closureVote_genuine hcfg hargument
  | initiate message =>
    refine ok_bind (quiet_genuine (reserveInitiation_takes (c := c) (by decide)))
      fun remaining t _ ↦ ?_
    split
    · exact hreply _ t
    · exact acceptMessage_genuine hcfg hargument _ _
  | say message =>
    rw [handleCommand]
    split
    · exact hreply _ s
    · exact acceptMessage_genuine hcfg hargument _ _
  | deliver text =>
    refine ok_bind (append_genuine (fun now ↦ genuine_of_caller c hargument) _ _) fun _ t _ ↦ ?_
    exact quiet_genuine
      (takes_bind (markActivity_takes (by decide)) fun _ ↦ send_takes (by decide) _)
  | speak text =>
    exact ok_bind (append_genuine (fun now ↦ genuine_of_caller c hargument) _ _) fun _ t _ ↦
      hreply _ t
  | grant name =>
    rw [handleCommand]
    split
    · refine ok_bind (grantTurn_genuine hargument.message.2) fun _ t _ ↦ ?_
      exact ok_bind (append_genuine (fun now ↦ genuine_of_caller c hargument) _ _) fun _ t _ ↦
        hreply _ t
    · exact hreply _ s

theorem handleConnection_genuine (hread : c.Read) : (handleConnection c).Honest k s := by
  refine ok_bind (quiet_genuine (markSeen_takes (c := c))) fun _ t _ ↦ ?_
  refine ok_bind (R := fun _ _ ↦ True) ?_ fun _ t _ ↦
    quiet_genuine (networkClose_takes (by decide))
  rw [serveLine]
  split
  · exact genuine_pure (Q := fun _ ↦ True) trivial
  rename_i command hc
  exact ok_bind (quiet_genuine (checkTurn_takes (by decide))) fun hasTurn t _ ↦
    handleCommand_genuine hcfg hread hasTurn hc

end

/-! ## Runs -/

/-- **Whatever the callers send and however their handlers are interleaved, there are only genuine
records in the logs**, provided that this is so when the service is started. -/
theorem served_genuine (hcfg : cfg.Loaded) (hlogs : ∀ log, ∀ r ∈ cfg.logs log, r.Genuine cfg)
    {restored : Name} (hrestored : 10 ∉ restored.bytes) (activity : Option Int)
    (logTime : Log → Nat) (acts : List (Act (cfg.Person × Bytes) Env)) :
    ((Hub.boot cfg restored activity logTime).served acts).Genuine := by
  refine (genuine cfg).run_inv ⟨hlogs, ?_⟩ (fun k call ↦ ?_) ?_
  · rw [Hub.boot]
    split
    · rw [Arbitration.grant, Name.snprintf_bytes]
      exact hrestored
    · change 10 ∉ Name.empty.bytes
      decide
  · exact handleConnection_genuine hcfg ⟨call.2, rfl⟩
  · exact System.along_of_forall fun _ _ _ ↦ trivial

namespace small

/-- Bob is online, and alice says something. -/
def session (message : String) : List (Act (small.Person × Bytes) Env) :=
  .spawn (bob, Bytes.ofAscii "PING\n") :: List.replicate 4 (.advance 0 noon) ++
    .spawn (alice, Bytes.ofAscii ("SAY " ++ message ++ "\n")) :: List.replicate 20 (.advance 1 noon)

end small

end Noobia.Council
