import Noobia.Lib.Bytes
import Noobia.Lib.Framer

/-!
# The line transports

A Noob is sent its commands one to a line, over a serial line (`StreamTransport`) or over TCP
(`TcpServerTransport`).  Both collect the bytes of a line and hand the line over when a carriage
return or a line feed ends it, and both have a limit on its length.  They differ in what they do
when the limit is passed: over TCP the rest of the line is discarded, while the serial transport
forgets what it has and starts again in the middle.

What is received is kept in the stream or in the client of the connection until it is read, so
these are part of the model: bytes arrive (`arrive`) whenever they like, and `receive` reads some.
What the lines are that a transport will hand over, with more bytes to come, is
`LineTransport.ahead`, and three facts about it are all that is needed of a transport: bytes may
arrive early or late, `receive` hands over the first of the lines that are ahead, and reading comes
to an end.
-/

namespace Noobia

open List

/-- `value == '\n' || value == '\r'`. -/
def isBreak (value : UInt8) : Bool := value = 10 || value = 13

/-! ## The serial transport -/

/-- `StreamTransport`. -/
structure StreamTransport where
  /-- What there is to read in `stream_`. -/
  stream : Bytes := []
  input : Bytes := []
  maximumLine : Nat := 2048
  /-- The lines that have been printed to `stream_`. -/
  printed : List String := []
  deriving DecidableEq

namespace StreamTransport

/-- What `receive` does with one byte.  A byte too many makes it forget the line, itself
included. -/
def framer (maximumLine : Nat) : Framer Bytes UInt8 Bytes where
  step input value :=
    if isBreak value then
      if !input.isEmpty then ([], some input) else (input, none)
    else if input.length < maximumLine then (input ++ [value], none)
    else ([], none)

/-- `receive`: `while (stream_.available())`. -/
def receive (t : StreamTransport) : Option Bytes × StreamTransport :=
  let (message, input, stream) := (framer t.maximumLine).take t.stream.length t.input t.stream
  (message, { t with input, stream })

def send (message : String) (t : StreamTransport) : StreamTransport :=
  { t with printed := t.printed ++ [message] }

end StreamTransport

/-! ## The TCP server -/

/-- A TCP connection, as `WiFiClient` shows it. -/
structure WiFiClient where
  /-- What has been received and not been read. -/
  bytes : Bytes := []
  connected : Bool := false
  printed : List String := []
  deriving DecidableEq

/-- How far a line has been read. -/
structure Reading where
  input : Bytes := []
  discarding : Bool := false
  deriving DecidableEq

/-- `TcpServerTransport`. -/
structure TcpServerTransport where
  /-- The clients that `server_` has not handed over. -/
  waiting : List WiFiClient := []
  client : WiFiClient := {}
  /-- `input_` and `discarding_`. -/
  reading : Reading := {}
  maximumLine : Nat := 2200
  deriving DecidableEq

namespace TcpServerTransport

/-- What `receive` does with one byte. -/
def framer (maximumLine : Nat) : Framer Reading UInt8 Bytes where
  step r value :=
    if isBreak value then
      if r.discarding then ({ r with discarding := false }, none)
      else if !r.input.isEmpty then ({ r with input := [] }, some r.input)
      else (r, none)
    else if !r.discarding then
      if r.input.length < maximumLine then ({ r with input := r.input ++ [value] }, none)
      else (⟨[], true⟩, none)
    else (r, none)

/-- The first half of `receive`: a new client takes over, and a client that has gone is given up. -/
def attend (t : TcpServerTransport) : TcpServerTransport :=
  match t.waiting with
  | client :: waiting => { t with waiting, client, reading := {} }
  | [] => if !t.client.connected then { t with client := {}, reading := {} } else t

/-- `receive`, which reads at most 128 bytes. -/
def receive (t : TcpServerTransport) : Option Bytes × TcpServerTransport :=
  let t := t.attend
  if !t.client.connected then (none, t)
  else
    let (message, reading, bytes) := (framer t.maximumLine).take 128 t.reading t.client.bytes
    (message, { t with client := { t.client with bytes }, reading })

def send (message : String) (t : TcpServerTransport) : TcpServerTransport :=
  if t.client.connected then
    { t with client := { t.client with printed := t.client.printed ++ [message] } }
  else t

/-- Bytes come over the latest connection. -/
def arrive (bytes : Bytes) (t : TcpServerTransport) : TcpServerTransport :=
  match t.waiting with
  | [] => { t with client := { t.client with bytes := t.client.bytes ++ bytes } }
  | client :: waiting =>
    { t with
      waiting := (client :: waiting).modify waiting.length
        fun client ↦ { client with bytes := client.bytes ++ bytes } }

/-- Somebody connects. -/
def connect (t : TcpServerTransport) : TcpServerTransport :=
  { t with waiting := t.waiting ++ [{ connected := true }] }

end TcpServerTransport

/-! ## Either -/

/-- A `NoobTransport` that reads lines. -/
inductive LineTransport
  | stream (t : StreamTransport)
  | tcp (t : TcpServerTransport)
  deriving DecidableEq

namespace LineTransport

def receive : LineTransport → Option Bytes × LineTransport
  | stream t => (t.receive.1, stream t.receive.2)
  | tcp t => (t.receive.1, tcp t.receive.2)

def send (message : String) : LineTransport → LineTransport
  | stream t => stream (t.send message)
  | tcp t => tcp (t.send message)

def maximumLine : LineTransport → Nat
  | stream t => t.maximumLine
  | tcp t => t.maximumLine

/-- Bytes come in. -/
def arrive (bytes : Bytes) : LineTransport → LineTransport
  | stream t => stream { t with stream := t.stream ++ bytes }
  | tcp t => tcp (t.arrive bytes)

/-- There is one connection, if there are connections at all, and nobody else waits for the
server. -/
def Attached : LineTransport → Prop
  | stream _ => True
  | tcp t => (t.waiting = [] ∧ t.client.connected = true) ∨
      ∃ client, t.waiting = [client] ∧ client.connected = true

/-- What has come in and has not been read. -/
def unread : LineTransport → Bytes
  | stream t => t.stream
  | tcp t => t.attend.client.bytes

/-- The lines that will be handed over when these bytes follow. -/
def ahead (more : Bytes) : LineTransport → List Bytes
  | stream t => ((StreamTransport.framer t.maximumLine).feed t.input (t.stream ++ more)).2
  | tcp t => ((TcpServerTransport.framer t.maximumLine).feed t.attend.reading
      (t.attend.client.bytes ++ more)).2

end LineTransport

/-! ## What is needed of a transport -/

namespace TcpServerTransport

variable {t : TcpServerTransport}

theorem attend_of_connected (hwaiting : t.waiting = []) (hclient : t.client.connected = true) :
    t.attend = t := by
  rw [attend, hwaiting]
  simp [hclient]

variable {client : WiFiClient}

theorem attend_of_waiting (hwaiting : t.waiting = [client]) :
    t.attend = { t with waiting := [], client, reading := {} } := by
  rw [attend, hwaiting]

theorem arrive_of_attended (hwaiting : t.waiting = []) (bytes : Bytes) :
    t.arrive bytes = { t with client := { t.client with bytes := t.client.bytes ++ bytes } } := by
  rw [arrive]
  split
  · rfl
  rename_i hcons
  rw [hwaiting] at hcons
  cases hcons

theorem arrive_of_waiting (hwaiting : t.waiting = [client]) (bytes : Bytes) :
    t.arrive bytes = { t with waiting := [{ client with bytes := client.bytes ++ bytes }] } := by
  rw [arrive, hwaiting]
  rfl

/-- After the first half of `receive` the one connection is the client's. -/
theorem attend_spec (h : (LineTransport.tcp t).Attached) :
    t.attend.waiting = [] ∧ t.attend.client.connected = true ∧
      t.attend.maximumLine = t.maximumLine := by
  rcases h with ⟨hwaiting, hclient⟩ | ⟨client, hwaiting, hclient⟩
  · rw [attend_of_connected hwaiting hclient]
    exact ⟨hwaiting, hclient, rfl⟩
  · rw [attend_of_waiting hwaiting]
    exact ⟨rfl, hclient, rfl⟩

/-- It makes no difference to bytes whether the client has been seen to. -/
theorem attend_arrive (h : (LineTransport.tcp t).Attached) (bytes : Bytes) :
    (t.arrive bytes).attend = t.attend.arrive bytes := by
  rcases h with ⟨hwaiting, hclient⟩ | ⟨client, hwaiting, hclient⟩
  · rw [attend_of_connected hwaiting hclient, arrive_of_attended hwaiting]
    exact attend_of_connected hwaiting hclient
  · rw [attend_of_waiting hwaiting, arrive_of_waiting hwaiting]
    rfl

/-- The second half of `receive`. -/
theorem receive_eq (h : (LineTransport.tcp t).Attached) :
    t.receive = (((framer t.maximumLine).take 128 t.attend.reading t.attend.client.bytes).1,
      { t.attend with
        client := { t.attend.client with
          bytes := ((framer t.maximumLine).take 128 t.attend.reading t.attend.client.bytes).2.2 }
        reading :=
          ((framer t.maximumLine).take 128 t.attend.reading t.attend.client.bytes).2.1 }) := by
  obtain ⟨-, hclient, hmaximum⟩ := attend_spec h
  rw [receive]
  simp only [hclient, Bool.not_true, Bool.false_eq_true, if_false, hmaximum]

end TcpServerTransport

namespace LineTransport

variable {t : LineTransport}

theorem attached_arrive (h : t.Attached) (bytes : Bytes) : (t.arrive bytes).Attached := by
  cases t with
  | stream t => trivial
  | tcp t =>
    rcases h with ⟨hwaiting, hclient⟩ | ⟨client, hwaiting, hclient⟩
    · rw [arrive, TcpServerTransport.arrive_of_attended hwaiting]
      exact .inl ⟨hwaiting, hclient⟩
    · rw [arrive, TcpServerTransport.arrive_of_waiting hwaiting]
      exact .inr ⟨_, rfl, hclient⟩

/-- **Bytes may arrive early or late.** -/
theorem ahead_arrive (h : t.Attached) (bytes more : Bytes) :
    (t.arrive bytes).ahead more = t.ahead (bytes ++ more) := by
  cases t with
  | stream t => rw [arrive, ahead, ahead, append_assoc]
  | tcp t =>
    have hmaximum : (t.arrive bytes).maximumLine = t.maximumLine := by
      rw [TcpServerTransport.arrive]
      split <;> rfl
    rw [arrive, ahead, ahead, TcpServerTransport.attend_arrive h, hmaximum,
      TcpServerTransport.arrive_of_attended (TcpServerTransport.attend_spec h).1,
      append_assoc]

theorem length_unread_arrive (h : t.Attached) (bytes : Bytes) :
    (t.arrive bytes).unread.length = t.unread.length + bytes.length := by
  cases t with
  | stream t => exact length_append
  | tcp t =>
    rw [arrive, unread, unread, TcpServerTransport.attend_arrive h,
      TcpServerTransport.arrive_of_attended (TcpServerTransport.attend_spec h).1]
    exact length_append

/-- What `receive` leaves behind over TCP is attended to. -/
theorem attend_receive {t : TcpServerTransport} (h : (tcp t).Attached) :
    t.receive.2.attend = t.receive.2 := by
  obtain ⟨hwaiting, hclient, -⟩ := TcpServerTransport.attend_spec h
  rw [TcpServerTransport.receive_eq h]
  exact TcpServerTransport.attend_of_connected hwaiting hclient

theorem attached_receive (h : t.Attached) : t.receive.2.Attached := by
  cases t with
  | stream t => trivial
  | tcp t =>
    obtain ⟨hwaiting, hclient, -⟩ := TcpServerTransport.attend_spec h
    rw [receive, TcpServerTransport.receive_eq h]
    exact .inl ⟨hwaiting, hclient⟩

/-- **`receive` hands over the next line**, if it hands over anything. -/
theorem ahead_receive (h : t.Attached) (more : Bytes) :
    t.ahead more = t.receive.1.toList ++ t.receive.2.ahead more := by
  cases t with
  | stream t => exact Framer.feed_take _ _ _ _ _
  | tcp t =>
    obtain ⟨-, -, hmaximum⟩ := TcpServerTransport.attend_spec h
    rw [receive, ahead, ahead, attend_receive h, TcpServerTransport.receive_eq h]
    dsimp only
    rw [hmaximum]
    exact Framer.feed_take _ _ _ _ _

/-- **Reading gets on.** -/
theorem length_unread_receive (h : t.Attached) :
    t.receive.2.unread.length ≤ t.unread.length - 1 := by
  have hpositive {n : Nat} {bytes : Bytes} (hn : bytes ≠ [] → n < bytes.length)
      (hzero : n ≤ bytes.length) : n ≤ bytes.length - 1 := by
    cases bytes with
    | nil => exact hzero
    | cons b bytes =>
      have := hn (cons_ne_nil b bytes)
      omega
  cases t with
  | stream t =>
    exact hpositive (fun hne ↦ Framer.length_take_lt _ (length_pos_of_ne_nil hne) _ hne)
      (Framer.length_take_le _ _ _ _)
  | tcp t =>
    rw [receive, unread, unread, attend_receive h, TcpServerTransport.receive_eq h]
    exact hpositive (fun hne ↦ Framer.length_take_lt _ (by decide) _ hne)
      (Framer.length_take_le _ _ _ _)

/-- What is sent makes no difference to what is received. -/
theorem attend_send (t : TcpServerTransport) (message : String) :
    (t.send message).attend.reading = t.attend.reading ∧
      (t.send message).attend.client.bytes = t.attend.client.bytes ∧
      (t.send message).maximumLine = t.maximumLine := by
  rw [TcpServerTransport.send]
  split
  · rename_i hconnected
    rw [TcpServerTransport.attend, TcpServerTransport.attend]
    dsimp only
    split
    · exact ⟨rfl, rfl, rfl⟩
    · rw [hconnected]
      exact ⟨rfl, rfl, rfl⟩
  · exact ⟨rfl, rfl, rfl⟩

theorem ahead_send (t : LineTransport) (message : String) (more : Bytes) :
    (t.send message).ahead more = t.ahead more := by
  cases t with
  | stream t => rfl
  | tcp t =>
    obtain ⟨hreading, hbytes, hmaximum⟩ := attend_send t message
    rw [send, ahead, ahead, hreading, hbytes, hmaximum]

theorem unread_send (t : LineTransport) (message : String) :
    (t.send message).unread = t.unread := by
  cases t with
  | stream t => rfl
  | tcp t => exact (attend_send t message).2.1

theorem attached_send (h : t.Attached) (message : String) : (t.send message).Attached := by
  cases t with
  | stream t => trivial
  | tcp t =>
    rw [send, TcpServerTransport.send]
    split
    · exact h
    · exact h

/-- There is nothing ahead where everything has been read. -/
theorem ahead_of_unread (h : t.unread = []) : t.ahead [] = [] := by
  cases t with
  | stream t | tcp t =>
    rw [unread] at h
    rw [ahead, h]
    rfl

end LineTransport

end Noobia
