import Noobia.Council.Hub

/-!
# What a section can do

There are only so many things a section of a handler can do: note something down, add a record to a
log, write the turn, open or settle a vote, take or give up the lease.  `Section c K` is the list of
them for the handler of `c`, each with the state it leads to, and `K` says which kinds of them a
function of the service needs.

The lemmas below say so of every function, and `handleConnection_takes` of the handler as a whole.
A proof about interleavings that has to know what the other handlers may do goes through the list
once instead of through the functions.
-/

namespace Noobia.Council

open Routine

/-- The kinds of things a section can do. -/
inductive Kind
  | check
  | move
  | ballot
  | settle
  | finale
  | record
  | exchange
  | reply
  | close
  | mark
  | measure
  | reserve
  | release
  deriving DecidableEq

/-- Things of this kind go into the history. -/
def Kind.isNoted : Kind → Bool
  | mark | measure | reserve | release => false
  | _ => true

/-- The kind of a log line: the end of a conversation is one of its own. -/
def LogEvent.kind : LogEvent → Kind
  | conversationEnd => .finale
  | _ => .record

variable {cfg : Config}

/-- The kind of a note. -/
def Event.kind : Event cfg → Kind
  | checked .. => .check
  | moved .. => .move
  | opened .. | voted .. => .ballot
  | settled .. => .settle
  | recorded _ _ record _ => record.event.kind
  | exchanged .. => .exchange
  | sent .. => .reply
  | closed .. => .close

/-- What a section of the handler of `c` can do with the input `i`, `K` being the kinds of things it
may do. -/
inductive Section (c : Connection cfg) (K : Kind → Prop) (i : Env) : Hub cfg → Hub cfg → Prop
  | idle (s : Hub cfg) : Section c K i s s
  | seen (s : Hub cfg) : Section c K i s { s with
      online := Function.update s.online c.person true
      lastSeen := Function.update s.lastSeen c.person i.now }
  | online (s : Hub cfg) (p : cfg.Person) (b : Bool) :
    Section c K i s { s with online := Function.update s.online p b }
  | check (s : Hub cfg) (h : K .check) :
    Section c K i s (s.note (.checked c s.turn (s.arbitration.canSpeak c.name)))
  | exchange (s : Hub cfg) (peer : cfg.Person) (command : Bytes) (ok : Bool) (h : K .exchange) :
    Section c K i s (s.note (.exchanged c peer command ok))
  | send (s : Hub cfg) (line : Bytes) (h : K .reply) : Section c K i s (s.note (.sent c line))
  | close (s : Hub cfg) (h : K .close) : Section c K i s (s.note (.closed c))
  | append (s : Hub cfg) (log : Log) (record : Record) (proposal : Nat) (h : K record.event.kind)
    (hstamp : record.stamp = i.now) : Section c K i s (s.append c log record proposal)
  | move (s : Hub cfg) (arbitration : Arbitration) (h : K .move) :
    Section c K i s (s.turnTo c arbitration)
  | settle (s : Hub cfg) (speaker : Bytes) (hmove : K .move) (h : K .settle) :
    Section c K i s (s.settle c speaker)
  | propose (s : Hub cfg) (now : Nat) (h : K .ballot) : Section c K i s (s.propose c now)
  | vote (s : Hub cfg) (close : Bool) (h : K .ballot) : Section c K i s (s.vote c close)
  | measure (s : Hub cfg) (now remaining : Nat) (h : K .measure) :
    Section c K i s (s.noteLease (.measured c now (s.lease remaining now)))
  | reserve (s : Hub cfg) (now : Nat) (h : K .reserve) : Section c K i s (s.reserve c now i).2
  | mark (s : Hub cfg) (h : K .mark) : Section c K i s (s.mark c i.now)
  | markFile (s : Hub cfg) (now : Nat) (h : K .mark) :
    Section c K i s { s with activity := some now }
  | release (s : Hub cfg) (h : K .release) : Section c K i s (s.release c i.ok)

variable {c : Connection cfg} {K : Kind → Prop}

/-! ## The basic sections -/

theorem time_takes : (time : Handler cfg Nat).Takes (Section c K) := takes_atomic fun _ s ↦ .idle s

theorem look_takes {α : Type} (f : Hub cfg → α) : (look f : Handler cfg α).Takes (Section c K) :=
  takes_look fun _ s ↦ .idle s

theorem send_takes (hK : K .reply) (line : Bytes) : (send c line).Takes (Section c K) :=
  takes_change fun _ s ↦ .send s line hK

theorem reply_takes (hK : K .reply) (line : String) : (reply c line).Takes (Section c K) :=
  send_takes hK _

theorem transcriptAppend_takes {event : LogEvent} (hK : K event.kind) (log : Log) (speaker : Name)
    (message : Bytes) (proposal : Nat) :
    (transcriptAppend c log speaker event message proposal).Takes (Section c K) := by
  refine takes_change fun i s ↦ ?_
  split
  · exact .append s log ⟨i.now, speaker, event, message⟩ proposal hK rfl
  · exact .idle s

theorem checkTurn_takes (hK : K .check) : (checkTurn c).Takes (Section c K) :=
  takes_atomic fun _ s ↦ .check s hK

theorem passTurn_takes (hK : K .move) (previous : Name) :
    (passTurn c previous).Takes (Section c K) :=
  takes_atomic fun _ s ↦ .move s _ hK

theorem grantTurn_takes (hK : K .move) (name : Bytes) : (grantTurn c name).Takes (Section c K) :=
  takes_change fun _ s ↦ .move s _ hK

theorem markSeen_takes : (markSeen c).Takes (Section c K) := takes_change fun _ s ↦ .seen s

theorem networkClose_takes (hK : K .close) : (networkClose c).Takes (Section c K) :=
  takes_change fun _ s ↦ .close s hK

/-! ## The lease -/

theorem activityMark_takes (hK : K .mark) :
    (activityMark : Handler cfg Unit).Takes (Section c K) := by
  refine takes_bind time_takes fun now ↦ takes_change fun i s ↦ ?_
  split
  · exact .markFile s now hK
  · exact .idle s

theorem markActivity_takes (hK : K .mark) : (markActivity c).Takes (Section c K) :=
  takes_bind (takes_change fun _ s ↦ .mark s hK) fun _ ↦ activityMark_takes hK

theorem busyRemaining_takes (hK : K .measure) : (busyRemaining c).Takes (Section c K) :=
  takes_bind (takes_atomic fun _ s ↦ .idle s) fun remaining ↦
    takes_bind time_takes fun now ↦ takes_atomic fun _ s ↦ .measure s now remaining hK

theorem reserveInitiation_takes (hK : K .reserve) : (reserveInitiation c).Takes (Section c K) :=
  takes_bind time_takes fun now ↦ takes_atomic fun _ s ↦ .reserve s now hK

theorem releaseInitiation_takes (hK : K .release) : (releaseInitiation c).Takes (Section c K) :=
  takes_change fun _ s ↦ .release s hK

/-! ## Messages -/

theorem exchange_takes (hK : K .exchange) (peer : cfg.Person) (command : Bytes) :
    (exchange c peer command).Takes (Section c K) :=
  takes_ite (takes_atomic fun i s ↦ .exchange s peer command i.ok hK) takes_pure

theorem deliver_takes (hK : K .exchange) (peer : cfg.Person) (command : Bytes) :
    (deliver c peer command).Takes (Section c K) :=
  takes_bind (exchange_takes hK peer command) fun ok ↦
    takes_bind (takes_change fun _ s ↦ .online s peer ok) fun _ ↦ takes_pure

theorem reachHuman_takes (target : Option cfg.Person) :
    (reachHuman target).Takes (Section c K) := by
  cases target with
  | none => exact takes_pure
  | some p => exact takes_ite (look_takes _) takes_pure

theorem deliverTo_takes (hK : K .exchange) (message : Bytes) (target next : Option cfg.Person)
    (destination : cfg.Person) :
    (deliverTo c message target next destination).Takes (Section c K) :=
  takes_ite takes_pure (takes_bind (deliver_takes hK _ _) fun _ ↦ takes_pure)

theorem moveTurn_takes (hK : K .move) (target next : Option cfg.Person) :
    (moveTurn c target next).Takes (Section c K) := by
  cases target with
  | none => exact passTurn_takes hK _
  | some _ =>
    cases next with
    | none => exact takes_pure
    | some p => exact takes_bind (grantTurn_takes hK _) fun _ ↦ takes_pure

theorem announce_takes (hK : K .exchange) (p : cfg.Person) (command : Bytes) :
    (announce c p command).Takes (Section c K) :=
  takes_ite (takes_bind (deliver_takes hK _ _) fun _ ↦ takes_pure) takes_pure

theorem relayMessage_takes (hexchange : K .exchange) (hmove : K .move) (hrecord : K .record)
    (message : Bytes) : (relayMessage c message).Takes (Section c K) := by
  refine takes_ite takes_pure (takes_ite takes_pure ?_)
  refine takes_bind (reachHuman_takes _) fun next ↦ ?_
  refine takes_bind (takes_foldlM (deliverTo_takes hexchange _ _) _ _) fun next ↦ ?_
  refine takes_bind (moveTurn_takes hmove _ _) fun next ↦ ?_
  cases next with
  | none => exact takes_pure
  | some p =>
    refine takes_bind (announce_takes hexchange _ _) fun _ ↦ ?_
    exact takes_bind (transcriptAppend_takes hrecord _ _ _ _) fun _ ↦ takes_pure

theorem rejectMessage_takes (hreply : K .reply) {reserved : Bool}
    (hrelease : reserved = true → K .release) (error : String) :
    (rejectMessage c reserved error).Takes (Section c K) := by
  cases reserved with
  | false => exact reply_takes hreply _
  | true =>
    exact takes_bind (releaseInitiation_takes (hrelease rfl)) fun _ ↦ reply_takes hreply _

theorem acceptMessage_takes (event : LogEvent) (hexchange : K .exchange) (hmove : K .move)
    (hrecord : K .record) (hreply : K .reply) (hmark : K .mark) (hevent : K event.kind)
    {reserved : Bool} (hrelease : reserved = true → K .release) (message : Bytes) :
    (acceptMessage c message event reserved).Takes (Section c K) := by
  refine takes_bind (relayMessage_takes hexchange hmove hrecord message) fun outcome ↦ ?_
  cases outcome with
  | routed =>
    refine takes_bind (transcriptAppend_takes hevent _ _ _ _) fun _ ↦ ?_
    exact takes_bind (markActivity_takes hmark) fun _ ↦ send_takes hreply _
  | targetOffline | targetUnknown | targetSelf => exact rejectMessage_takes hreply hrelease _

/-! ## Questions about the hub -/

theorem presence_takes (hK : K .exchange) (now : Nat) (p : cfg.Person) :
    (presence c now p).Takes (Section c K) := by
  rw [presence]
  split
  · exact exchange_takes hK _ _
  · exact look_takes _

theorem sendPresence_takes (hexchange : K .exchange) (hreply : K .reply) (now : Nat)
    (p : cfg.Person) : (sendPresence c now p).Takes (Section c K) :=
  takes_bind (presence_takes hexchange now p) fun online ↦
    takes_bind (takes_change fun _ s ↦ .online s p online) fun _ ↦ send_takes hreply _

theorem holderOnline_takes (current : Name) :
    (holderOnline current : Handler cfg Bool).Takes (Section c K) := by
  rw [holderOnline]
  split
  · exact look_takes _
  · exact takes_pure

theorem passOfflineTurn_takes (hexchange : K .exchange) (hmove : K .move) (hrecord : K .record)
    (current : Name) : (passOfflineTurn c current).Takes (Section c K) := by
  refine takes_bind (holderOnline_takes current) fun live ↦
    takes_ite takes_pure (takes_bind (passTurn_takes hmove _) fun next ↦ ?_)
  cases next with
  | none => exact takes_pure
  | some p =>
    exact takes_bind (announce_takes hexchange _ _) fun _ ↦ transcriptAppend_takes hrecord _ _ _ _

theorem sendStatus_takes (hexchange : K .exchange) (hmove : K .move) (hrecord : K .record)
    (hreply : K .reply) : (sendStatus c).Takes (Section c K) := by
  refine takes_bind time_takes fun now ↦ ?_
  refine takes_bind (takes_foldlM (fun _ p ↦ sendPresence_takes hexchange hreply now p) _ _)
    fun _ ↦ ?_
  refine takes_bind (reply_takes hreply _) fun _ ↦ takes_bind (look_takes _) fun current ↦ ?_
  exact takes_ite takes_pure (passOfflineTurn_takes hexchange hmove hrecord current)

theorem sendLines_takes (hreply : K .reply) (word : String) (lines : List Bytes) :
    (sendLines c word lines).Takes (Section c K) := by
  induction lines with
  | nil => exact takes_pure
  | cons line lines ih =>
    refine takes_bind (takes_atomic fun i s ↦ ?_) fun ok ↦ takes_ite ih takes_pure
    dsimp only
    split
    · exact .send s _ hreply
    · exact .idle s

theorem sendEvents_takes (hreply : K .reply) (offset : Int) :
    (sendEvents c offset).Takes (Section c K) := by
  refine takes_ite (takes_bind (takes_atomic fun _ s ↦ .idle s) fun read ↦ ?_)
    (reply_takes hreply _)
  refine takes_bind (sendLines_takes hreply _ _) fun ok ↦ takes_ite ?_ (reply_takes hreply _)
  refine takes_bind (look_takes _) fun now ↦ takes_bind (send_takes hreply _) fun _ ↦ ?_
  refine takes_bind (send_takes hreply _) fun _ ↦ ?_
  exact takes_bind (send_takes hreply _) fun _ ↦ reply_takes hreply _

theorem readContext_takes (participant : Name) :
    (readContext participant : Handler cfg (List Bytes)).Takes (Section c K) := by
  refine takes_bind (takes_atomic fun _ s ↦ .idle s) fun start ↦ ?_
  cases start with
  | none => exact takes_pure
  | some start => exact look_takes _

theorem sendContext_takes (hreply : K .reply) : (sendContext c).Takes (Section c K) := by
  refine takes_ite (takes_bind (reply_takes hreply _) fun _ ↦ ?_) (reply_takes hreply _)
  refine takes_bind (readContext_takes _) fun lines ↦ ?_
  exact takes_bind (sendLines_takes hreply _ _) fun ok ↦
    takes_ite (reply_takes hreply _) (reply_takes hreply _)

/-! ## Ending the conversation -/

theorem closureComplete_takes (people : List cfg.Person) :
    (closureComplete people).Takes (Section c K) := by
  induction people with
  | nil => exact takes_pure
  | cons p people ih => exact takes_bind (look_takes _) fun missing ↦ takes_ite takes_pure ih

theorem settle_takes (hmove : K .move) (hsettle : K .settle) (speaker : Bytes) :
    (settle c speaker).Takes (Section c K) :=
  takes_change fun _ s ↦ .settle s speaker hmove hsettle

theorem closureFinish_takes (hmove : K .move) (hsettle : K .settle) (hfinale : K .finale)
    (hrelease : K .release) : (closureFinish c).Takes (Section c K) :=
  takes_bind (look_takes _) fun _ ↦ takes_bind (transcriptAppend_takes hfinale _ _ _ _) fun _ ↦
    takes_bind (settle_takes hmove hsettle _) fun _ ↦ releaseInitiation_takes hrelease

theorem closeIfComplete_takes (hmove : K .move) (hsettle : K .settle) (hfinale : K .finale)
    (hrelease : K .release) : (closeIfComplete c).Takes (Section c K) :=
  takes_bind (closureComplete_takes _) fun _ ↦
    takes_ite (closureFinish_takes hmove hsettle hfinale hrelease) takes_pure

theorem openClosure_takes (hballot : K .ballot) (now : Nat) :
    (openClosure c now).Takes (Section c K) := by
  refine takes_atomic fun i s ↦ ?_
  split
  · exact .idle s
  · exact .propose s now hballot

theorem closurePropose_takes (hballot : K .ballot) (hmove : K .move) (hsettle : K .settle)
    (hfinale : K .finale) (hrecord : K .record) (hreply : K .reply) (hrelease : K .release)
    (reason : Bytes) (hasTurn : Bool) : (closurePropose c reason hasTurn).Takes (Section c K) := by
  refine takes_bind time_takes fun now ↦ takes_ite (reply_takes hreply _)
    (takes_ite (reply_takes hreply _) ?_)
  refine takes_bind (openClosure_takes hballot now) fun opened ↦
    takes_ite (reply_takes hreply _) ?_
  refine takes_bind (look_takes _) fun _ ↦
    takes_bind (transcriptAppend_takes hrecord _ _ _ _) fun _ ↦ ?_
  exact takes_bind (send_takes hreply _) fun _ ↦
    closeIfComplete_takes hmove hsettle hfinale hrelease

theorem castVote_takes (hballot : K .ballot) (close : Bool) (reason : Bytes) :
    (castVote c close reason).Takes (Section c K) := by
  refine takes_atomic fun i s ↦ ?_
  split
  · exact .idle s
  · exact .vote s close hballot

theorem cancelClosure_takes (hmove : K .move) (hsettle : K .settle) (hrecord : K .record)
    (hmark : K .mark) : (cancelClosure c).Takes (Section c K) :=
  takes_bind (settle_takes hmove hsettle _) fun _ ↦
    takes_bind (transcriptAppend_takes hrecord _ _ _ _) fun _ ↦
      takes_bind (transcriptAppend_takes hrecord _ _ _ _) fun _ ↦ markActivity_takes hmark

theorem closureVote_takes (hballot : K .ballot) (hmove : K .move) (hsettle : K .settle)
    (hfinale : K .finale) (hrecord : K .record) (hreply : K .reply) (hmark : K .mark)
    (hrelease : K .release) (vote : Bytes) : (closureVote c vote).Takes (Section c K) := by
  rw [closureVote]
  split
  · exact reply_takes hreply _
  refine takes_bind (castVote_takes hballot _ _) fun cast ↦ ?_
  cases cast with
  | none => exact reply_takes hreply _
  | some cast =>
    refine takes_bind (transcriptAppend_takes hrecord _ _ _ _) fun _ ↦
      takes_bind (send_takes hreply _) fun _ ↦ ?_
    exact takes_ite (closeIfComplete_takes hmove hsettle hfinale hrelease)
      (cancelClosure_takes hmove hsettle hrecord hmark)

/-! ## Files -/

theorem receiveFile_takes (hreply : K .reply) (transfer : Transfer) {finish : Handler cfg Unit}
    (hfinish : finish.Takes (Section c K)) :
    (receiveFile c transfer finish).Takes (Section c K) := by
  cases transfer with
  | header | tooLarge | hungUp => exact reply_takes hreply _
  | digest | store => exact takes_bind (reply_takes hreply _) fun _ ↦ reply_takes hreply _
  | targetUnknown | targetOffline | stored =>
    exact takes_bind (reply_takes hreply _) fun _ ↦ hfinish

theorem fileStored_takes (hrecord : K .record) (hreply : K .reply) (hmark : K .mark) (log : Log)
    (text : Bytes) : (fileStored c log text).Takes (Section c K) :=
  takes_bind (transcriptAppend_takes hrecord _ _ _ _) fun _ ↦
    takes_bind (activityMark_takes hmark) fun _ ↦ reply_takes hreply _

theorem fileCommand_takes (hrecord : K .record) (hreply : K .reply) (hmark : K .mark)
    (hasTurn : Bool) : (fileCommand c hasTurn).Takes (Section c K) := by
  refine takes_ite (reply_takes hreply _) (takes_ite (reply_takes hreply _) ?_)
  refine takes_bind (takes_atomic fun _ s ↦ .idle s) fun outcome ↦ ?_
  obtain ⟨transfer, text⟩ := outcome
  have hstored := receiveFile_takes hreply transfer (fileStored_takes (c := c) hrecord hreply
    hmark .transcript text.bytes)
  cases transfer with
  | targetUnknown => exact reply_takes hreply _
  | targetOffline =>
    exact receiveFile_takes hreply _ (takes_bind (transcriptAppend_takes hrecord _ _ _ _) fun _ ↦
      reply_takes hreply _)
  | header | tooLarge | hungUp | digest | store | stored => exact hstored

theorem storeCommand_takes (hrecord : K .record) (hreply : K .reply) (hmark : K .mark) :
    (storeCommand c).Takes (Section c K) :=
  takes_ite (reply_takes hreply _) (takes_bind (takes_atomic fun _ s ↦ .idle s) fun _ ↦
    receiveFile_takes hreply _ (fileStored_takes hrecord hreply hmark _ _))

/-! ## The handler -/

/-- What any command but those about the end of the conversation does. -/
theorem handleCommand_takes {hasTurn : Bool} {command : Command}
    (hpropose : ∀ reason, command ≠ .endPropose reason) (hvote : ∀ vote, command ≠ .endVote vote)
    (hbusy : command = .busy → K .measure)
    (hinitiate : ∀ message, command = .initiate message → K .reserve ∧ K .release)
    (hexchange : K .exchange) (hmove : K .move) (hrecord : K .record) (hreply : K .reply)
    (hmark : K .mark) : (handleCommand c hasTurn command).Takes (Section c K) := by
  cases command with
  | file => exact fileCommand_takes hrecord hreply hmark _
  | store => exact storeCommand_takes hrecord hreply hmark
  | ping | unknown => exact reply_takes hreply _
  | busy => exact takes_bind (busyRemaining_takes (hbusy rfl)) fun _ ↦ send_takes hreply _
  | status => exact sendStatus_takes hexchange hmove hrecord hreply
  | events offset => exact sendEvents_takes hreply offset
  | context => exact sendContext_takes hreply
  | endPropose reason => exact absurd rfl (hpropose reason)
  | endVote vote => exact absurd rfl (hvote vote)
  | initiate message =>
    obtain ⟨hreserve, hrelease⟩ := hinitiate message rfl
    exact takes_bind (reserveInitiation_takes hreserve) fun _ ↦ takes_ite (send_takes hreply _)
      (acceptMessage_takes .initiate hexchange hmove hrecord hreply hmark hrecord
        (fun _ ↦ hrelease) _)
  | say message =>
    refine takes_ite (reply_takes hreply _)
      (acceptMessage_takes .message hexchange hmove hrecord hreply hmark hrecord ?_ _)
    nofun
  | deliver text =>
    exact takes_bind (transcriptAppend_takes hrecord _ _ _ _) fun _ ↦
      takes_bind (markActivity_takes hmark) fun _ ↦ send_takes hreply _
  | speak text =>
    exact takes_bind (transcriptAppend_takes hrecord _ _ _ _) fun _ ↦ send_takes hreply _
  | grant name =>
    exact takes_ite (takes_bind (grantTurn_takes hmove _) fun _ ↦
      takes_bind (transcriptAppend_takes hrecord _ _ _ _) fun _ ↦ send_takes hreply _)
      (reply_takes hreply _)

theorem serveLine_takes (hexchange : K .exchange) (hmove : K .move) (hrecord : K .record)
    (hreply : K .reply) (hcheck : K .check) (hmark : K .mark) (hend : c.isEnd = false)
    (hbusy : c.isBusy = true → K .measure)
    (hinitiate : c.isInitiate = true → K .reserve ∧ K .release) :
    (serveLine c).Takes (Section c K) := by
  rw [serveLine]
  rw [Connection.isEnd] at hend
  rw [Connection.isBusy] at hbusy
  rw [Connection.isInitiate] at hinitiate
  split
  · exact takes_pure
  rename_i command hcommand
  rw [hcommand] at hend hbusy hinitiate
  refine takes_bind (checkTurn_takes hcheck) fun hasTurn ↦
    handleCommand_takes ?_ ?_ ?_ ?_ hexchange hmove hrecord hreply hmark
  · rintro reason rfl
    cases hend
  · rintro vote rfl
    cases hend
  · rintro rfl
    exact hbusy rfl
  · rintro message rfl
    exact hinitiate rfl

/-- **There is nothing else a section of a handler can do.**  To measure the lease is for those
who ask for it, to take it for those who initiate a conversation, and to give it up for them and for
those who end one. -/
theorem handleConnection_takes (c : Connection cfg)
    (hK : ∀ k, k ≠ .measure → k ≠ .reserve → k ≠ .release → K k)
    (hmeasure : c.isBusy = true → K .measure) (hreserve : c.isInitiate = true → K .reserve)
    (hrelease : c.isInitiate = true ∨ c.isEnd = true → K .release) :
    (handleConnection c).Takes (Section c K) := by
  have hK {k : Kind} (h : k ≠ .measure ∧ k ≠ .reserve ∧ k ≠ .release) : K k :=
    hK k h.1 h.2.1 h.2.2
  refine takes_bind markSeen_takes fun _ ↦
    takes_bind ?_ fun _ ↦ networkClose_takes (hK (by decide))
  by_cases hend : c.isEnd = true
  · have hrelease := hrelease (.inr hend)
    rw [serveLine]
    rw [Connection.isEnd] at hend
    split
    · exact takes_pure
    rename_i command hcommand
    rw [hcommand] at hend
    refine takes_bind (checkTurn_takes (hK (by decide))) fun hasTurn ↦ ?_
    cases command
    case endPropose =>
      exact closurePropose_takes (hK (by decide)) (hK (by decide)) (hK (by decide))
        (hK (by decide)) (hK (by decide)) (hK (by decide)) hrelease _ _
    case endVote =>
      exact closureVote_takes (hK (by decide)) (hK (by decide)) (hK (by decide))
        (hK (by decide)) (hK (by decide)) (hK (by decide)) (hK (by decide)) hrelease _
    all_goals cases hend
  · exact serveLine_takes (hK (by decide)) (hK (by decide)) (hK (by decide)) (hK (by decide))
      (hK (by decide)) (hK (by decide)) (by simpa using hend) hmeasure fun hinitiate ↦
      ⟨hreserve hinitiate, hrelease (.inl hinitiate)⟩

theorem handleConnection_section (c : Connection cfg) :
    (handleConnection c).Takes (Section c fun _ ↦ True) :=
  handleConnection_takes c (fun _ _ _ _ ↦ trivial) (fun _ ↦ trivial) (fun _ ↦ trivial) fun _ ↦
    trivial

end Noobia.Council
