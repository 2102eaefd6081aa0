import Noobia.Council.Arbitration
import Noobia.Lib.Stdio

/-!
# The transcript

The council keeps two logs, the transcript of the conversation and an inbox.  A log is a text file
to which records are appended, one line each: when it was, who it is about, what happened and a
text, with tabs in between.

The transcript is not only there to be read.  The hub sends it to live clients from wherever they
left off (`streamSince`), cuts out of it the window a participant is to see (`contextStart`), and
finds in it after a restart whose turn it was (`lastSpeaker`).  All three read it with `fgets` into
a buffer of 8192 bytes and look for an event anywhere in what they have read, not in its column.
-/

namespace Noobia.Council

/-- `COUNCIL_MESSAGE_LENGTH`. -/
def messageLength : Nat := 8192

/-- A number in decimal, `%lu`. -/
def decimal (n : Nat) : Bytes := (Nat.toDigits 10 n).map fun c ↦ UInt8.ofNat c.toNat

/-! ## Records -/

/-- The two logs of a service. -/
inductive Log
  | transcript
  | inbox
  deriving DecidableEq

/-- The events the service writes to its logs. -/
inductive LogEvent
  | grant
  | offlineGrant
  | message
  | initiate
  | speak
  | endProposal
  | endVote
  | endCancelled
  | conversationEnd
  | file
  | filePending
  deriving DecidableEq

/-- The name of an event in the log. -/
def LogEvent.text : LogEvent → Bytes
  | grant => Bytes.ofAscii "grant"
  | offlineGrant => Bytes.ofAscii "offline-grant"
  | message => Bytes.ofAscii "message"
  | initiate => Bytes.ofAscii "initiate"
  | speak => Bytes.ofAscii "speak"
  | endProposal => Bytes.ofAscii "end-proposal"
  | endVote => Bytes.ofAscii "end-vote"
  | endCancelled => Bytes.ofAscii "end-cancelled"
  | conversationEnd => Bytes.ofAscii "conversation-end"
  | file => Bytes.ofAscii "file"
  | filePending => Bytes.ofAscii "file-pending"

/-- A line of a log. -/
structure Record where
  stamp : Nat
  speaker : Name
  event : LogEvent
  message : Bytes
  deriving DecidableEq

/-! ## Dates -/

/-- A number below 100 in two digits. -/
def twoDigits (n : Nat) : Bytes := [UInt8.ofNat (48 + n / 10 % 10), UInt8.ofNat (48 + n % 10)]

/-- Year, month and day so many days after the first of January 1970, as `gmtime` has them.  The
year is taken to begin in March, so that the leap day is its last. -/
def civil (days : Nat) : Nat × Nat × Nat :=
  let shifted := days + 719468
  let era := shifted / 146097
  let dayOfEra := shifted % 146097
  let yearOfEra := (dayOfEra - dayOfEra / 1460 + dayOfEra / 36524 - dayOfEra / 146096) / 365
  let dayOfYear := dayOfEra - (365 * yearOfEra + yearOfEra / 4 - yearOfEra / 100)
  let month := (5 * dayOfYear + 2) / 153
  let day := dayOfYear - (153 * month + 2) / 5 + 1
  let year := yearOfEra + era * 400
  if month < 10 then (year, month + 3, day) else (year + 1, month - 9, day)

/-- `strftime` with the format `%Y-%m-%dT%H:%M:%SZ`. -/
def dateText (now : Nat) : Bytes :=
  let date := civil (now / 86400)
  decimal date.1 ++ [45] ++ twoDigits date.2.1 ++ [45] ++ twoDigits date.2.2 ++ [84] ++
    twoDigits (now / 3600 % 24) ++ [58] ++ twoDigits (now / 60 % 60) ++ [58] ++
    twoDigits (now % 60) ++ [90]

example : dateText 951782400 = Bytes.ofAscii "2000-02-29T00:00:00Z" := by decide +kernel

/-- What `transcript_append` writes, without the newline. -/
def Record.text (r : Record) : Bytes :=
  dateText r.stamp ++ [9] ++ r.speaker.bytes ++ [9] ++ r.event.text ++ [9] ++ r.message

/-- A file with these records in it. -/
def logFile (records : List Record) : Bytes := records.flatMap fun r ↦ r.text ++ [10]

/-! ## What the hub reads in the transcript -/

/-- `transcript_stream_since`: the lines from a position on, and the position after them.  A
position that is not in the file stands for its beginning. -/
def streamSince (file : Bytes) (offset : Int) : List Bytes × Nat :=
  let start := if offset < 0 || file.length < offset then 0 else offset.toNat
  ((Stdio.pieces messageLength (file.drop start)).map Stdio.chomp, file.length)

/-- What follows the first `needle` in a string, if there is one. -/
def textAfter (needle : String) (string : Bytes) : Option Bytes :=
  CString.after (Bytes.ofAscii needle) string

/-- The text of a line that looks like a grant: what follows the first `grant`, or if there is none
the first `offline-grant`, and if there is an `offline-grant` only what follows the arrow. -/
def grantValue (line : Bytes) : Option Bytes :=
  let offline := textAfter "\toffline-grant\t" line
  ((textAfter "\tgrant\t" line).or offline).map fun value ↦
    if offline.isSome then (textAfter " -> " value).getD value else value

def isGrantFor (line : Bytes) (participant : Name) : Bool :=
  match grantValue line with
  | none => false
  | some value => participant.bytes.isPrefixOf value &&
    match value.drop participant.bytes.length with
    | [] => true
    | b :: _ => b = 10 || b = 13

/-- The positions `transcript_stream_context` keeps while it looks for grants: where it is, and
where the last grant and the one before it are. -/
structure Grants where
  position : Nat
  previous : Nat
  current : Nat

/-- One round of its first loop. -/
def Grants.read (participant : Name) (s : Grants) (piece : Bytes) : Grants :=
  if isGrantFor (CString.text piece) participant then
    ⟨s.position + piece.length, s.current, s.position⟩
  else { s with position := s.position + piece.length }

/-- Where the window of a participant begins. -/
def contextStart (file : Bytes) (participant : Name) : Nat :=
  ((Stdio.pieces messageLength file).foldl (Grants.read participant) ⟨0, 0, 0⟩).previous

/-- The lines `transcript_stream_context` sends, once it knows where to begin. -/
def contextLines (file : Bytes) (start : Nat) : List Bytes :=
  (Stdio.pieces messageLength (file.drop start)).map Stdio.chomp

/-- One round of the loop of `transcript_last_speaker`. -/
def readSpeaker (speaker : Name) (piece : Bytes) : Name :=
  let line := CString.text piece
  if (textAfter "\tconversation-end\t" line).isSome then .empty
  else
    match grantValue line with
    | none => speaker
    | some value =>
      let value := Stdio.chomp value
      .snprintf ((textAfter " -> " value).getD value)

/-- `transcript_last_speaker`. -/
def lastSpeaker (file : Bytes) : Name :=
  (Stdio.pieces messageLength file).foldl readSpeaker .empty

end Noobia.Council
