import Noobia.Council.Transcript
import Noobia.Lib.Threads

/-!
# The hub and its connection handlers

A council service starts a thread for every connection.  The thread learns who is calling, reads one
line, acts on it and closes the socket.  All threads share one `council_service`; a mutex protects
most of it most of the time, but what a handler does between asking a question under the lock and
acting on the answer is rarely one critical section.

The handlers below are routines over the shared `Hub`.  Each stretch under the lock is one section;
so is each access to shared data outside of it, each exchange with another machine, each line added
to a log and each line sent to the caller.  What a section learns from the outside, the time and
whether an operation worked, is its input `Env`.

`Hub.history` is not in the program.  It is the list of what the handlers have done, in the order in
which it happened, and it is what the properties of the council are stated about: the lines sent to
callers and added to logs are in it, and next to them, as things only an observer could note, which
turn a handler saw when it checked and which one it ended, and on which proposal a vote was cast.
`Hub.turn` and `Closure.proposals` count turns and proposals for that purpose.  `Hub.leases` is the
same for the lease on the conversation.
-/

namespace Noobia.Council

open Routine

/-! ## Configuration -/

/-- The part of `service_config` and of the contact book that the handlers look at. -/
structure Config where
  name : Name
  isHub : Bool
  presenceSeconds : Nat
  contacts : List Contact
  /-- What the service finds in its log files when it is started. -/
  logs : Log → List Record

/-- A contact, as the handlers refer to one: a pointer into `contacts.items`. -/
abbrev Config.Person (cfg : Config) := Fin cfg.contacts.length

/-- What a pointer points to. -/
def Config.contact (cfg : Config) (p : cfg.Person) : Contact := cfg.contacts[p]

/-- All contacts, in the order of the book. -/
def Config.people (cfg : Config) : List cfg.Person := List.finRange cfg.contacts.length

/-- `contact_book_find`. -/
def Config.find (cfg : Config) (name : Name) : Option cfg.Person :=
  cfg.people.find? fun p ↦ (cfg.contact p).name = name

/-- `CONVERSATION_LEASE_SECONDS`. -/
def leaseSeconds : Nat := 300

/-! ## Commands -/

/-- What a line asks for. -/
inductive Command
  | file
  | store
  | ping
  | busy
  | status
  | events (offset : Int)
  | context
  | endPropose (reason : Bytes)
  | endVote (vote : Bytes)
  | initiate (message : Bytes)
  | say (message : Bytes)
  | deliver (text : Bytes)
  | speak (text : Bytes)
  | grant (name : Bytes)
  | unknown

/-- `!strncmp(line, word, strlen(word))`. -/
def starts (word : String) (line : Bytes) : Bool := (Bytes.ofAscii word).isPrefixOf line

/-- The command a line is taken for; the tests are made in this order. -/
def Command.parse (line : Bytes) : Command :=
  if starts "FILE " line then .file
  else if starts "STORE " line then .store
  else if line = Bytes.ofAscii "PING" then .ping
  else if line = Bytes.ofAscii "BUSY" then .busy
  else if line = Bytes.ofAscii "STATUS" then .status
  else if starts "EVENTS " line then .events (CString.strtol (line.drop 7))
  else if line = Bytes.ofAscii "CONTEXT" then .context
  else if starts "END_PROPOSE " line then .endPropose (line.drop 12)
  else if starts "END_VOTE " line then .endVote (line.drop 9)
  else if starts "INITIATE " line then .initiate (line.drop 9)
  else if starts "SAY " line then .say (line.drop 4)
  else if starts "DELIVER " line then .deliver (line.drop 8)
  else if starts "SPEAK " line then .speak (line.drop 6)
  else if starts "GRANT " line then .grant (line.drop 6)
  else .unknown

/-- A connection whose caller has proved who it is. -/
structure Connection (cfg : Config) where
  /-- The socket; no two connections share one. -/
  socket : Nat
  /-- Who is calling. -/
  person : cfg.Person
  /-- What `network_read_line` returns, if anything. -/
  line : Option Bytes
  deriving DecidableEq

namespace Connection

variable {cfg : Config}

/-- The command on the line, which ends where the C string does. -/
def command (c : Connection cfg) : Option Command :=
  c.line.map fun line ↦ Command.parse (CString.text line)

/-- The name of the caller. -/
def name (c : Connection cfg) : Name := (cfg.contact c.person).name

/-- The caller has something to say. -/
def isSay (c : Connection cfg) : Bool :=
  match c.command with
  | some (.say _) => true
  | _ => false

/-- The caller asks whether there is a conversation. -/
def isBusy (c : Connection cfg) : Bool :=
  match c.command with
  | some .busy => true
  | _ => false

/-- The caller wants to begin a conversation. -/
def isInitiate (c : Connection cfg) : Bool :=
  match c.command with
  | some (.initiate _) => true
  | _ => false

/-- The caller proposes to end the conversation or votes on it. -/
def isEnd (c : Connection cfg) : Bool :=
  match c.command with
  | some (.endPropose _) => true
  | some (.endVote _) => true
  | _ => false

end Connection

/-! ## What happens -/

/-- What a handler did, as an observer would note it down. -/
inductive Event (cfg : Config)
  /-- It looked whether its caller has the turn, during the turn of that number. -/
  | checked (c : Connection cfg) (turn : Nat) (hasTurn : Bool)
  /-- It wrote the turn, ending that turn of that holder. -/
  | moved (c : Connection cfg) (turn : Nat) (holder : Name)
  /-- It opened a proposal, on which those on the roll are to vote. -/
  | opened (c : Connection cfg) (proposal : Nat) (roll : List cfg.Person)
  /-- It entered its caller's vote on a proposal. -/
  | voted (c : Connection cfg) (proposal : Nat) (close : Bool)
  /-- It ended the vote. -/
  | settled (c : Connection cfg)
  /-- It added a line to a log; one that names a proposal names that one. -/
  | recorded (c : Connection cfg) (log : Log) (record : Record) (proposal : Nat)
  /-- It sent a command to another service. -/
  | exchanged (c : Connection cfg) (peer : cfg.Person) (command : Bytes) (ok : Bool)
  | sent (c : Connection cfg) (line : Bytes)
  | closed (c : Connection cfg)
  deriving DecidableEq

instance {cfg : Config} : LawfulBEq (Event cfg) := inferInstance

/-- What a handler did about the lease on the conversation, as an observer would note it down. -/
inductive Lease (cfg : Config)
  /-- It found so much of the lease left, going by the time it had read.  An initiation that finds
  nothing left has taken the lease. -/
  | measured (c : Connection cfg) (now remaining : Nat)
  /-- It marked activity, so that the lease begins anew. -/
  | marked (c : Connection cfg) (now : Nat)
  | released (c : Connection cfg)
  deriving DecidableEq

/-- Whose handler it was. -/
def Lease.connection {cfg : Config} : Lease cfg → Connection cfg
  | measured c .. | marked c .. | released c => c

/-- Whose handler it was. -/
def Event.connection {cfg : Config} : Event cfg → Connection cfg
  | checked c .. | moved c .. | opened c .. | voted c .. | settled c | recorded c ..
  | exchanged c .. | sent c .. | closed c => c

/-! ## The shared state -/

/-- The vote on ending the conversation. -/
structure Closure (cfg : Config) where
  id : Nat
  active : Bool
  expected : cfg.Person → Bool
  votes : cfg.Person → Int
  proposer : Name
  /-- How many proposals have been opened so far. -/
  proposals : Nat

/-- `council_service`, with the files it keeps. -/
structure Hub (cfg : Config) where
  arbitration : Arbitration
  online : cfg.Person → Bool
  lastSeen : cfg.Person → Nat
  activityUntil : Nat
  closure : Closure cfg
  /-- The number in the activity file, if there is one. -/
  activity : Option Int
  /-- When each log was last written; 0 if it does not exist. -/
  logTime : Log → Nat
  records : Log → List Record
  /-- How often the turn has been written. -/
  turn : Nat
  history : List (Event cfg)
  leases : List (Lease cfg)

/-- How a file command that has passed the first checks ends. -/
inductive Transfer
  | header
  | tooLarge
  | targetUnknown
  | hungUp
  | digest
  | store
  | targetOffline
  | stored

/-- What a file command adds to a log: the names of the target and the file and where it has been
stored, none of which has a line break in it. -/
structure FileText where
  bytes : Bytes
  oneLine : 0 ∉ bytes ∧ 10 ∉ bytes

/-- What a section learns from the outside. -/
structure Env where
  now : Nat
  /-- Whether the operation on the network or on the activity file worked. -/
  ok : Bool
  /-- Whether a log can be opened. -/
  disk : Bool
  /-- How a file transfer ends. -/
  transfer : Transfer
  /-- The text a file command adds to the log. -/
  text : FileText

/-- Everything works. -/
def Env.works (i : Env) : Prop := i.ok = true ∧ i.disk = true

/-- A routine of a connection handler. -/
abbrev Handler (cfg : Config) (α : Type) := Routine Env (Hub cfg) α

variable {cfg : Config} (s : Hub cfg)

/-- Note something down. -/
def Hub.note (e : Event cfg) : Hub cfg := { s with history := s.history ++ [e] }

/-- Note down something about the lease. -/
def Hub.noteLease (lease : Lease cfg) : Hub cfg :=
  { s with leases := s.leases ++ [lease] }

/-- Add a record to a log. -/
def Hub.append (c : Connection cfg) (log : Log) (record : Record) (proposal : Nat) : Hub cfg :=
  { s.note (.recorded c log record proposal) with
    logTime := Function.update s.logTime log record.stamp
    records := Function.update s.records log (s.records log ++ [record]) }

/-- Write the turn. -/
def Hub.turnTo (c : Connection cfg) (arbitration : Arbitration) : Hub cfg :=
  { s with
    arbitration
    turn := s.turn + 1
    history := s.history ++ [.moved c s.turn s.arbitration.currentSpeaker] }

/-- Whether a contact counts as online at the time `now`. -/
def Hub.counted (now : Nat) (p : cfg.Person) : Bool :=
  match (cfg.contact p).role with
  | .ai => s.online p
  | .human => s.lastSeen p ≠ 0 && now - s.lastSeen p ≤ cfg.presenceSeconds

/-! ## The basic sections -/

def time : Handler cfg Nat := atomic fun i s ↦ (i.now, s)

variable (c : Connection cfg)

/-- `network_send` to the caller. -/
def send (line : Bytes) : Handler cfg Unit :=
  change fun _ s ↦ s.note (.sent c line)

/-- The reply to what has been taken on. -/
def accepted : Bytes := Bytes.ofAscii "ACCEPTED\n"

/-- A reply that is a text of the program. -/
def reply (line : String) : Handler cfg Unit := send c (Bytes.ofAscii line)

/-- `transcript_append`: nothing is written if the file cannot be opened.  The record is added in
one step, as it is by `fprintf` and `fclose` if it fits into the buffer of 4096 bytes. -/
def transcriptAppend (log : Log) (speaker : Name) (event : LogEvent) (message : Bytes)
    (proposal : Nat) : Handler cfg Unit :=
  change fun i s ↦
    if i.disk then
      s.append c log ⟨i.now, speaker, event, message⟩ proposal
    else s

/-- The section of `handle_connection` that looks whether the caller has the turn. -/
def checkTurn : Handler cfg Bool :=
  atomic fun _ s ↦
    let hasTurn := s.arbitration.canSpeak c.name
    (hasTurn, s.note (.checked c s.turn hasTurn))

/-- `arbitration_next` under the lock. -/
def passTurn (previous : Name) : Handler cfg (Option cfg.Person) :=
  atomic fun _ s ↦
    let (next, arbitration) := s.arbitration.next cfg.contacts previous s.online
    (next, s.turnTo c arbitration)

/-- `arbitration_grant` under the lock. -/
def grantTurn (name : Bytes) : Handler cfg Unit :=
  change fun _ s ↦ s.turnTo c (s.arbitration.grant name)

def markSeen : Handler cfg Unit :=
  change fun i s ↦ { s with
    online := Function.update s.online c.person true
    lastSeen := Function.update s.lastSeen c.person i.now }

def networkClose : Handler cfg Unit := change fun _ s ↦ s.note (.closed c)

/-! ## The activity lease -/

/-- `conversation_activity_mark`. -/
def activityMark : Handler cfg Unit := do
  let now ← time
  change fun i s ↦ if i.ok then { s with activity := some now } else s

/-- `conversation_activity_remaining` of the number in the activity file, with the time of the log
to fall back on. -/
def activityRemaining (activity : Option Int) (logTime now : Nat) : Nat :=
  let recorded := activity.getD 0
  if recorded < 0 then 0
  else
    let recorded := if recorded = 0 then logTime else recorded.toNat
    if recorded = 0 then 0
    else if now ≤ recorded then leaseSeconds
    else if leaseSeconds ≤ now - recorded then 0
    else leaseSeconds - (now - recorded)

/-- What the files say is left of the lease. -/
def Hub.remaining (now : Nat) : Nat :=
  activityRemaining s.activity (s.logTime (if cfg.isHub then .transcript else .inbox)) now

/-- The longer of that and what `activity_until` says. -/
def Hub.lease (remaining now : Nat) : Nat :=
  if now < s.activityUntil && remaining < s.activityUntil - now then s.activityUntil - now
  else remaining

/-- The section of `mark_activity` under the lock. -/
def Hub.mark (c : Connection cfg) (now : Nat) : Hub cfg :=
  { s.noteLease (.marked c now) with activityUntil := now + leaseSeconds }

def markActivity : Handler cfg Unit := do
  change fun i s ↦ s.mark c i.now
  activityMark

def busyRemaining : Handler cfg Nat := do
  let remaining ← atomic fun i s ↦ (s.remaining i.now, s)
  let now ← time
  atomic fun _ s ↦
    let remaining := s.lease remaining now
    (remaining, s.noteLease (.measured c now remaining))

/-- The section of `reserve_initiation` under the lock, `now` having been read before it. -/
def Hub.reserve (c : Connection cfg) (now : Nat) (i : Env) : Nat × Hub cfg :=
  let remaining := s.lease (s.remaining i.now) now
  let s := s.noteLease (.measured c now remaining)
  if remaining = 0 then
    (remaining, { s with
      activityUntil := now + leaseSeconds
      activity := if i.ok then some i.now else s.activity })
  else (remaining, s)

def reserveInitiation : Handler cfg Nat := do
  let now ← time
  atomic fun i s ↦ s.reserve c now i

/-- The section of `release_initiation`. -/
def Hub.release (c : Connection cfg) (ok : Bool) : Hub cfg :=
  { s.noteLease (.released c) with
    activityUntil := 0
    activity := if ok then some (-1) else s.activity }

def releaseInitiation : Handler cfg Unit := change fun i s ↦ s.release c i.ok

/-! ## Messages -/

/-- `outbound_contact` and, if this service is in its own book, `protocol_send_command`. -/
def exchange (peer : cfg.Person) (command : Bytes) : Handler cfg Bool :=
  if (cfg.find cfg.name).isSome then
    atomic fun i s ↦ (i.ok, s.note (.exchanged c peer command i.ok))
  else pure false

/-- `deliver`: the exchange with the other service, and under the lock what it says about it. -/
def deliver (peer : cfg.Person) (command : Bytes) : Handler cfg Bool := do
  let ok ← exchange c peer command
  change fun _ s ↦ { s with online := Function.update s.online peer ok }
  return ok

/-- `message_target`: the contact whose name is in front of the first comma or colon, provided no
space is. -/
def messageTarget (cfg : Config) (message : Bytes) : Option cfg.Person × Bool :=
  let name := message.takeWhile fun b ↦ b ≠ 44 && b ≠ 58
  if name.length = message.length || name.contains 32 then (none, false)
  else
    match cfg.people.find? fun p ↦ (cfg.contact p).name.bytes = name with
    | some p => (some p, true)
    | none => (none, false)

/-- What `relay_message` returns. -/
inductive Routed
  | routed
  | targetOffline
  | targetUnknown
  | targetSelf

/-- The human a message is addressed to can have the turn if it is online. -/
def reachHuman (target : Option cfg.Person) : Handler cfg (Option cfg.Person) :=
  match target with
  | some p =>
    if (cfg.contact p).role = .human then look fun s ↦ if s.online p then some p else none
    else pure none
  | none => pure none

/-- The line that carries a message to an AI. -/
def deliverCommand (sender : Name) (message : Bytes) : Bytes :=
  Bytes.ofAscii "DELIVER " ++ sender.bytes ++ [32] ++
    message.take (messageLength - sender.bytes.length - 10)

/-- One round of the loop of `relay_message`: the message is delivered to one AI, or to none if it
is addressed to somebody else. -/
def deliverTo (message : Bytes) (target : Option cfg.Person) (next : Option cfg.Person)
    (destination : cfg.Person) : Handler cfg (Option cfg.Person) := do
  if (cfg.contact destination).role ≠ .ai || destination = c.person ||
      (target.isSome && target ≠ some destination) then
    return next
  else
    let ok ← deliver c destination (deliverCommand c.name message)
    return if ok && target.isSome then target else next

/-- The part of `relay_message` that writes the turn. -/
def moveTurn (target next : Option cfg.Person) : Handler cfg (Option cfg.Person) :=
  match target, next with
  | none, _ => passTurn c c.name
  | some _, some p => do
    grantTurn c (cfg.contact p).name.bytes
    return some p
  | some _, none => pure none

/-- The end of `relay_message`: the new speaker is told. -/
def announce (p : cfg.Person) (command : Bytes) : Handler cfg Unit := do
  if (cfg.contact p).role = .ai then
    let _ ← deliver c p (Bytes.ofAscii "SPEAK " ++ command)
  else pure ()

def relayMessage (message : Bytes) : Handler cfg Routed := do
  let (target, addressed) := messageTarget cfg message
  if addressed && target.isNone then return .targetUnknown
  else if target = some c.person then return .targetSelf
  else
    let next ← reachHuman target
    let next ← cfg.people.foldlM (deliverTo c message target) next
    match ← moveTurn c target next with
    | none => return .targetOffline
    | some p =>
      announce c p c.name.bytes
      transcriptAppend c .transcript cfg.name .grant (cfg.contact p).name.bytes 0
      return .routed

/-- A message that could not be routed: the reservation is given back and the caller told why. -/
def rejectMessage (reserved : Bool) (error : String) : Handler cfg Unit :=
  if reserved then do
    releaseInitiation c
    reply c error
  else reply c error

def acceptMessage (message : Bytes) (event : LogEvent) (reserved : Bool) : Handler cfg Unit := do
  match ← relayMessage c message with
  | .targetUnknown => rejectMessage c reserved "ERROR TARGET_UNKNOWN\n"
  | .targetSelf => rejectMessage c reserved "ERROR TARGET_SELF\n"
  | .targetOffline => rejectMessage c reserved "ERROR TARGET_OFFLINE\n"
  | .routed =>
    transcriptAppend c .transcript c.name event message 0
    markActivity c
    send c accepted

/-! ## Questions about the hub -/

/-- Whether a contact is online: `presence_check` for an AI, and for a human when it was last seen.
-/
def presence (now : Nat) (p : cfg.Person) : Handler cfg Bool :=
  match (cfg.contact p).role with
  | .ai => exchange c p (Bytes.ofAscii "PING")
  | .human => look fun s ↦ s.counted now p

/-- One round of the first loop of `send_status`. -/
def sendPresence (now : Nat) (p : cfg.Person) : Handler cfg Unit := do
  let online ← presence c now p
  change fun _ s ↦ { s with online := Function.update s.online p online }
  send c (Bytes.ofAscii "PRESENCE " ++ (cfg.contact p).name.bytes ++
    Bytes.ofAscii (if online then " online\n" else " offline\n"))

/-- Whether the holder of the turn is a contact and online, read without the lock. -/
def holderOnline (current : Name) : Handler cfg Bool :=
  match cfg.find current with
  | some holder => look fun s ↦ s.online holder
  | none => pure false

/-- The end of `send_status`: a turn whose holder is offline is passed on. -/
def passOfflineTurn (current : Name) : Handler cfg Unit := do
  let live ← holderOnline current
  if live then return ()
  else
    match ← passTurn c current with
    | none => return ()
    | some p =>
      announce c p (Bytes.ofAscii "offline:" ++ current.bytes)
      transcriptAppend c .transcript cfg.name .offlineGrant
        (current.bytes ++ Bytes.ofAscii " -> " ++ (cfg.contact p).name.bytes) 0

def sendStatus : Handler cfg Unit := do
  let now ← time
  cfg.people.foldlM (fun _ p ↦ sendPresence c now p) ()
  reply c "END\n"
  let current ← look fun s ↦ s.arbitration.currentSpeaker
  if current.isEmpty then return ()
  else passOfflineTurn c current

/-- What is in the transcript. -/
def Hub.transcript : Bytes := logFile (s.records .transcript)

/-- `transcript_stream_since`, up to the last line it reads; a file that cannot be opened is
empty. -/
def readEvents (offset : Int) : Handler cfg (List Bytes × Nat) :=
  atomic fun i s ↦ (if i.disk then streamSince s.transcript offset else ([], 0), s)

/-- The loop that sends the lines read, each behind a word; it stops when one cannot be sent. -/
def sendLines (c : Connection cfg) (word : String) : List Bytes → Handler cfg Bool
  | [] => pure true
  | line :: lines => do
    let ok ← atomic fun i s ↦
      (i.ok, if i.ok then s.note (.sent c (Bytes.ofAscii word ++ line ++ [10])) else s)
    if ok then sendLines c word lines else return false

/-- What follows the events in the reply to `EVENTS`: where to go on, whose turn it is and whether
there is a vote. -/
def sendCursor (next : Nat) : Handler cfg Unit := do
  let (speaker, closure) ← look fun s ↦ (s.arbitration.currentSpeaker, s.closure)
  send c (Bytes.ofAscii "CURSOR " ++ decimal next ++ [10])
  send c (Bytes.ofAscii "TURN " ++
    (if speaker.isEmpty then Bytes.ofAscii "none" else speaker.bytes) ++ [10])
  send c (Bytes.ofAscii (if closure.active then "CLOSURE open " else "CLOSURE none ") ++
    decimal closure.id ++ [32] ++
    (if closure.active then closure.proposer.bytes else Bytes.ofAscii "none") ++ [10])
  reply c "END\n"

def sendEvents (offset : Int) : Handler cfg Unit := do
  if cfg.isHub then
    let (lines, next) ← readEvents offset
    let ok ← sendLines c "EVENT " lines
    if ok then sendCursor c next else reply c "ERROR TRANSCRIPT\n"
  else reply c "ERROR NOT_ARBITER\n"

/-- `transcript_stream_context`: it reads the transcript once to find out where to begin, and once
more from there. -/
def readContext (participant : Name) : Handler cfg (List Bytes) := do
  let start ← atomic fun i s ↦
    (if i.disk then some (contextStart s.transcript participant) else none, s)
  match start with
  | none => return []
  | some start => look fun s ↦ contextLines s.transcript start

def sendContext : Handler cfg Unit := do
  if cfg.isHub then
    reply c "CONTEXT_BEGIN\n"
    let lines ← readContext c.name
    let ok ← sendLines c "CONTEXT " lines
    if ok then reply c "CONTEXT_END\n" else reply c "ERROR TRANSCRIPT\n"
  else reply c "ERROR NOT_ARBITER\n"

/-! ## Ending the conversation -/

/-- `closure_complete`, which looks at one vote after the other and does not hold the lock. -/
def closureComplete : List cfg.Person → Handler cfg Bool
  | [] => pure true
  | p :: people => do
    let missing ← look fun s ↦ s.closure.expected p && s.closure.votes p ≠ 1
    if missing then return false
    else closureComplete people

/-- The number of the proposal and its name in the log, read without the lock. -/
def closureId : Handler cfg (Nat × Nat) := look fun s ↦ (s.closure.id, s.closure.proposals)

/-- The vote is over and the turn goes to a speaker. -/
def Hub.settle (c : Connection cfg) (speaker : Bytes) : Hub cfg :=
  { s.note (.settled c) with closure := { s.closure with active := false } }.turnTo c
    (s.arbitration.grant speaker)

/-- The section that ends a vote. -/
def settle (speaker : Bytes) : Handler cfg Unit :=
  change fun _ s ↦ s.settle c speaker

def closureFinish : Handler cfg Unit := do
  let (id, proposal) ← closureId
  transcriptAppend c .transcript cfg.name .conversationEnd
    (Bytes.ofAscii "proposal=" ++ decimal id ++ Bytes.ofAscii " unanimous") proposal
  settle c []
  releaseInitiation c

/-- What follows a vote to close. -/
def closeIfComplete : Handler cfg Unit := do
  let complete ← closureComplete cfg.people
  if complete then closureFinish c else pure ()

/-- What is noted when a proposal is opened: the roll, and the vote of the one who makes it,
provided it is on the roll. -/
def Hub.opening (c : Connection cfg) (now : Nat) : List (Event cfg) :=
  .opened c (s.closure.proposals + 1) (cfg.people.filter (s.counted now)) ::
    if s.counted now c.person then [.voted c (s.closure.proposals + 1) true] else []

/-- A proposal is opened: those counted online are asked, and the one who makes it has voted. -/
def Hub.propose (c : Connection cfg) (now : Nat) : Hub cfg :=
  { s with
    closure :=
      { id := now
        active := true
        expected := s.counted now
        votes := fun p ↦ if s.counted now p && p = c.person then 1 else 0
        proposer := c.name
        proposals := s.closure.proposals + 1 }
    history := s.history ++ s.opening c now }

/-- The critical section of `closure_propose`. -/
def openClosure (now : Nat) : Handler cfg Bool :=
  atomic fun _ s ↦ if s.closure.active then (false, s) else (true, s.propose c now)

def closurePropose (reason : Bytes) (hasTurn : Bool) : Handler cfg Unit := do
  let now ← time
  if !cfg.isHub || (cfg.contact c.person).arbiterPriority ≤ 0 then reply c "ERROR ARBITER_ONLY\n"
  else if !hasTurn then reply c "ERROR NOT_YOUR_TURN\n"
  else
    let opened ← openClosure c now
    if !opened then reply c "ERROR CLOSURE_ACTIVE\n"
    else
      let (id, proposal) ← closureId
      let reason := if reason.isEmpty then Bytes.ofAscii "conversation appears complete" else reason
      transcriptAppend c .transcript c.name .endProposal
        (Bytes.ofAscii "proposal=" ++ decimal id ++ Bytes.ofAscii " reason=" ++
          reason.take (messageLength - 48)) proposal
      send c accepted
      closeIfComplete c

/-- Whether a vote is to close; `none` if it is neither that nor to continue. -/
def closeVote (vote : Bytes) : Option Bool :=
  if starts "close" vote && ((vote.drop 5).isEmpty || (vote.drop 5).head? = some 32) then some true
  else if starts "continue " vote && !(vote.drop 9).isEmpty then some false
  else none

/-- The reason given for a vote. -/
def voteReason (vote : Bytes) (close : Bool) : Bytes :=
  match vote.dropWhile (· ≠ 32) with
  | _ :: reason => reason
  | [] => if close then Bytes.ofAscii "no further matters" else []

/-- A vote is entered. -/
def Hub.vote (c : Connection cfg) (close : Bool) : Hub cfg :=
  { s.note (.voted c s.closure.proposals close) with
    closure := { s.closure with
      votes := Function.update s.closure.votes c.person (if close then 1 else -1) } }

/-- The critical section of `closure_vote`; it returns what goes into the log. -/
def castVote (close : Bool) (reason : Bytes) : Handler cfg (Option (Bytes × Nat)) :=
  atomic fun _ s ↦
    if !s.closure.active || !s.closure.expected c.person then (none, s)
    else
      let detail := Bytes.ofAscii "proposal=" ++ decimal s.closure.id ++
        Bytes.ofAscii (if close then " vote=close" else " vote=continue") ++
        Bytes.ofAscii " reason=" ++ reason.take (messageLength - 80)
      (some (detail, s.closure.proposals), s.vote c close)

/-- What follows a vote to continue. -/
def cancelClosure : Handler cfg Unit := do
  settle c c.name.bytes
  transcriptAppend c .transcript cfg.name .endCancelled c.name.bytes 0
  transcriptAppend c .transcript cfg.name .grant c.name.bytes 0
  markActivity c

def closureVote (vote : Bytes) : Handler cfg Unit := do
  match closeVote vote with
  | none => reply c "ERROR VOTE_USE_CLOSE_OR_CONTINUE_WITH_REASON\n"
  | some close =>
    match ← castVote c close (voteReason vote close) with
    | none => reply c "ERROR NO_CLOSURE_VOTE\n"
    | some (detail, proposal) =>
      transcriptAppend c .transcript c.name .endVote detail proposal
      send c accepted
      if close then closeIfComplete c else cancelClosure c

/-! ## Files -/

/-- The part the two file commands share, from the header on.  Once the file has arrived `finish`
has it. -/
def receiveFile (transfer : Transfer) (finish : Handler cfg Unit) : Handler cfg Unit := do
  match transfer with
  | .header => reply c "ERROR FILE_HEADER\n"
  | .tooLarge => reply c "ERROR FILE_TOO_LARGE\n"
  | .hungUp => reply c "READY\n"
  | .digest => do
    reply c "READY\n"
    reply c "ERROR FILE_DIGEST\n"
  | .store => do
    reply c "READY\n"
    reply c "ERROR FILE_STORE\n"
  | .targetUnknown | .targetOffline | .stored => do
    reply c "READY\n"
    finish

/-- The file is in its place. -/
def fileStored (log : Log) (text : Bytes) : Handler cfg Unit := do
  transcriptAppend c log c.name .file text 0
  activityMark
  reply c "STORED\n"

/-- The `FILE` command of `file_command_handle`. -/
def fileCommand (hasTurn : Bool) : Handler cfg Unit := do
  if (cfg.contact c.person).role ≠ .human then reply c "ERROR HUMAN_FILES_ONLY\n"
  else if !hasTurn then reply c "ERROR NOT_YOUR_TURN\n"
  else
    let (transfer, text) ← atomic fun i s ↦ ((i.transfer, i.text), s)
    match transfer with
    | .targetUnknown => reply c "ERROR TARGET_UNKNOWN\n"
    | .targetOffline =>
      receiveFile c transfer do
        transcriptAppend c .transcript c.name .filePending text.bytes 0
        reply c "ERROR TARGET_OFFLINE\n"
    | _ => receiveFile c transfer (fileStored c .transcript text.bytes)

/-- The `STORE` command of `file_command_handle`. -/
def storeCommand : Handler cfg Unit := do
  if (cfg.contact c.person).role ≠ .ai then reply c "ERROR AI_STORE_ONLY\n"
  else
    let (transfer, text) ← atomic fun i s ↦ ((i.transfer, i.text), s)
    receiveFile c transfer (fileStored c .inbox text.bytes)

/-! ## The handler -/

/-- The `BUSY` line, or `IDLE`. -/
def busyReply (remaining : Nat) : Bytes :=
  if remaining = 0 then Bytes.ofAscii "IDLE\n"
  else Bytes.ofAscii "BUSY " ++ decimal remaining ++ [10]

/-- What `handle_connection` does about a command. -/
def handleCommand (hasTurn : Bool) : Command → Handler cfg Unit
  | .file => fileCommand c hasTurn
  | .store => storeCommand c
  | .ping => reply c "PONG\n"
  | .busy => do
    let remaining ← busyRemaining c
    send c (busyReply remaining)
  | .status => sendStatus c
  | .events offset => sendEvents c offset
  | .context => sendContext c
  | .endPropose reason => closurePropose c reason hasTurn
  | .endVote vote => closureVote c vote
  | .initiate message => do
    let remaining ← reserveInitiation c
    if remaining ≠ 0 then send c (busyReply remaining)
    else acceptMessage c message .initiate true
  | .say message =>
    if !hasTurn then reply c "ERROR NOT_YOUR_TURN\n"
    else acceptMessage c message .message false
  | .deliver text => do
    transcriptAppend c .inbox c.name .message text 0
    markActivity c
    send c accepted
  | .speak text => do
    transcriptAppend c .inbox c.name .speak text 0
    send c accepted
  | .grant name =>
    if cfg.isHub then do
      grantTurn c name
      transcriptAppend c .transcript c.name .grant name 0
      send c accepted
    else reply c "ERROR COMMAND\n"
  | .unknown => reply c "ERROR COMMAND\n"

/-- The part of `handle_connection` between the first line and the last, if there is a line. -/
def serveLine : Handler cfg Unit :=
  match c.command with
  | none => pure ()
  | some command => do
    let hasTurn ← checkTurn c
    handleCommand c hasTurn command

/-- `handle_connection`, once the caller has proved who it is. -/
def handleConnection : Handler cfg Unit := do
  markSeen c
  serveLine c
  networkClose c

/-! ## The service -/

/-- The state in which `main` opens the listeners; `restored` is what `transcript_last_speaker`
finds in the transcript. -/
def Hub.boot (cfg : Config) (restored : Name) (activity : Option Int) (logTime : Log → Nat) :
    Hub cfg where
  arbitration := if cfg.isHub then Arbitration.init.grant restored.bytes else .init
  online _ := false
  lastSeen _ := 0
  activityUntil := 0
  closure :=
    { id := 0
      active := false
      expected := fun _ ↦ false
      votes := fun _ ↦ 0
      proposer := .empty
      proposals := 0 }
  activity := if cfg.isHub && restored.isEmpty then some (-1) else activity
  logTime
  records := cfg.logs
  turn := 0
  history := []
  leases := []

/-- Who calls and what it says. -/
abbrev Call (cfg : Config) := cfg.Person × Option Bytes

/-- The thread started for the connection on a socket. -/
def connectionThread (socket : Nat) (call : Call cfg) : Handler cfg Unit :=
  handleConnection ⟨socket, call.1, call.2⟩

/-- The hub after an interleaving of connection handlers. -/
def Hub.after (acts : List (Act (Call cfg) Env)) : Hub cfg :=
  (System.run connectionThread ⟨s, []⟩ acts).shared

/-! ## A small council

Three people and the hub itself, for runs on concrete inputs. -/

/-- The council: alice may propose to end the conversation. -/
def small : Config where
  name := .snprintf (Bytes.ofAscii "hub")
  isHub := true
  presenceSeconds := 60
  contacts :=
    [⟨.snprintf (Bytes.ofAscii "alice"), .human, 1⟩, ⟨.snprintf (Bytes.ofAscii "bob"), .human, 0⟩,
      ⟨.snprintf (Bytes.ofAscii "carol"), .human, 0⟩, ⟨.snprintf (Bytes.ofAscii "hub"), .ai, 0⟩]
  logs _ := []

namespace small

def alice : small.Person := ⟨0, by decide⟩
def bob : small.Person := ⟨1, by decide⟩
def carol : small.Person := ⟨2, by decide⟩

/-- The hub as it starts, with the turn restored to alice. -/
def start : Hub small := .boot small (small.contact alice).name none fun _ ↦ 0

/-- Somebody connects. -/
def connects (who : small.Person) (line : Option String) : Act (Call small) Env :=
  .spawn (who, line.map Bytes.ofAscii)

/-- It is noon and everything works. -/
def noon : Env := ⟨43200, true, true, .header, ⟨[], by decide⟩⟩

theorem noon_works : noon.works := ⟨rfl, rfl⟩

/-- A handler takes some sections, at noon and with everything working. -/
def goesOn (k sections : Nat) : List (Act (Call small) Env) :=
  List.replicate sections (.advance k noon)

end small

end Noobia.Council
