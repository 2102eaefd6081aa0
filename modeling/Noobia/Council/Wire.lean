import Noobia.Council.Hub
import Noobia.Lib.Alone

/-!
# Lines on the wire

Services talk to each other in lines.  `protocol_send_command` puts a newline behind a command, in a
buffer of 8192 bytes, and `network_read_line` takes bytes up to a newline, again into a buffer of
8192.  `transmit` is one after the other: a command of up to 8190 bytes arrives as it was sent, and
one that is longer does not arrive at all, for its newline is cut off and the reader waits for it in
vain.

A message is relayed in a command of its own, in which it is preceded by the name of its sender, and
`relay_message` cuts it so that the command fits its buffer, but not so that the newline does.
`delivery_intact_iff` says which messages reach the inbox they are meant for.
-/

open Bytes

namespace Noobia.Council

open List CString

open Routine

/-! ## Lines -/

/-- The loop of `network_read_line` with `room` bytes left in the buffer: the line and what has not
been read.  The result is `none` when the buffer is full or the stream ends. -/
def readLine : Nat → Bytes → Option (Bytes × Bytes)
  | 0, _ => none
  | _ + 1, [] => none
  | room + 1, b :: stream =>
    if b = 10 then some ([], stream)
    else if b = 13 then readLine (room + 1) stream
    else (readLine room stream).map fun (line, rest) ↦ (b :: line, rest)

/-- `network_read_line` into a buffer of `size` bytes. -/
def networkReadLine (size : Nat) (stream : Bytes) : Option (Bytes × Bytes) :=
  readLine (size - 1) stream

variable {stream line rest : Bytes} {cfg : Config} {c : Connection cfg} (text : Bytes)

/-- A line is read if there is room for it and one byte more. -/
theorem readLine_eq_some {room : Nat} :
    readLine room stream = some (line, rest) ↔ line.length < room ∧
      ∃ raw, stream = raw ++ 10 :: rest ∧ 10 ∉ raw ∧ line = raw.filter (· ≠ 13) := by
  induction stream generalizing room line with
  | nil => cases room <;> simp [readLine]
  | cons b stream ih =>
    cases room with
    | zero => simp [readLine]
    | succ room =>
      rw [readLine]
      split
      · rename_i hb
        subst hb
        constructor
        · intro h
          obtain ⟨rfl, rfl⟩ := Prod.mk.inj (Option.some.inj h)
          exact ⟨Nat.succ_pos _, [], rfl, not_mem_nil, rfl⟩
        · rintro ⟨-, raw, hraw, hnot, rfl⟩
          cases raw with
          | nil => rw [(List.cons.inj hraw).2]; rfl
          | cons b raw =>
            rw [cons_append, List.cons.injEq] at hraw
            exact absurd (hraw.1 ▸ mem_cons_self) hnot
      · rename_i hb
        -- whether or not the byte is kept, the rest of the line is read from what follows it
        have hcons (line' : Bytes) : (∃ raw, b :: stream = raw ++ 10 :: rest ∧ 10 ∉ raw ∧
            line' = raw.filter (· ≠ 13)) ↔ ∃ raw, stream = raw ++ 10 :: rest ∧ 10 ∉ raw ∧
            line' = (b :: raw).filter (· ≠ 13) := by
          constructor
          · rintro ⟨raw, hraw, hnot, rfl⟩
            cases raw with
            | nil => exact absurd (List.cons.inj hraw).1 hb
            | cons b' raw =>
              obtain ⟨rfl, rfl⟩ := List.cons.inj hraw
              exact ⟨raw, rfl, fun h ↦ hnot (mem_cons_of_mem _ h), rfl⟩
          · rintro ⟨raw, rfl, hnot, rfl⟩
            exact ⟨b :: raw, rfl, by simpa [Ne.symm hb] using hnot, rfl⟩
        rw [hcons]
        split
        · rename_i hb
          rw [ih, hb]
          rfl
        rename_i hkept
        simp only [filter_cons_of_pos (p := fun b : UInt8 ↦ decide (b ≠ 13)) (a := b)
          (by simpa using hkept), Option.map_eq_some_iff, Prod.exists, Prod.mk.injEq]
        constructor
        · rintro ⟨line', rest', h, rfl, rfl⟩
          obtain ⟨hroom, raw, hraw, hnot, rfl⟩ := ih.mp h
          exact ⟨Nat.succ_lt_succ hroom, raw, hraw, hnot, rfl⟩
        · rintro ⟨hroom, raw, hraw, hnot, rfl⟩
          exact ⟨_, rest, ih.mpr ⟨Nat.lt_of_succ_lt_succ hroom, raw, hraw, hnot, rfl⟩, rfl, rfl⟩

/-- There is neither a newline nor a carriage return in a line. -/
theorem not_mem_of_readLine {room : Nat} (h : readLine room stream = some (line, rest)) :
    10 ∉ line ∧ 13 ∉ line := by
  obtain ⟨-, raw, -, hnot, rfl⟩ := readLine_eq_some.mp h
  exact ⟨fun h ↦ hnot (mem_of_mem_filter h), fun h ↦ by simpa using (mem_filter.mp h).2⟩

/-- A line that is sent is read, if it is short enough. -/
theorem networkReadLine_line {size : Nat} (hnewline : 10 ∉ line) (hreturn : 13 ∉ line)
    (hlength : line.length + 1 < size) (rest : Bytes) :
    networkReadLine size (line ++ 10 :: rest) = some (line, rest) := by
  have hfilter : line = line.filter (· ≠ 13) := by
    rw [eq_comm, filter_eq_self]
    intro b hb
    rw [decide_eq_true_eq]
    rintro rfl
    exact hreturn hb
  rw [networkReadLine, readLine_eq_some.mpr ⟨by omega, line, rfl, hnewline, hfilter⟩]

/-! ## Commands -/

/-- What `protocol_send_command` sends for a command; one with a line break in it is refused. -/
def sendCommand (command : Bytes) : Option Bytes :=
  if 10 ∈ command ∨ 13 ∈ command then none else some ((command ++ [10]).take (messageLength - 1))

/-- A command as the service reads it to which it is sent. -/
def transmit (command : Bytes) : Option Bytes :=
  (sendCommand command).bind fun wire ↦ (networkReadLine messageLength wire).map Prod.fst

/-- **A command arrives as it was sent, or not at all.** -/
theorem transmit_eq (command : Bytes) : transmit command =
    if 10 ∉ command ∧ 13 ∉ command ∧ command.length + 1 < messageLength then some command
    else none := by
  rw [transmit, sendCommand]
  split
  · rename_i hbreak
    rw [if_neg (by tauto)]
    rfl
  rename_i hbreak
  obtain ⟨hnewline, hreturn⟩ := not_or.mp hbreak
  rw [Option.bind_some]
  split
  · rename_i hshort
    rw [take_of_length_le (by simp; omega),
      networkReadLine_line hnewline hreturn hshort.2.2, Option.map_some]
  rename_i hlong
  have hlong : messageLength ≤ command.length + 1 := by
    simpa [hnewline, hreturn] using hlong
  have hcut : 10 ∉ (command ++ [10]).take (messageLength - 1) := by
    rw [take_append_of_le_length (by omega)]
    exact fun h ↦ hnewline (mem_of_mem_take h)
  rw [Option.map_eq_none_iff, Option.eq_none_iff_forall_ne_some]
  rintro ⟨line, rest⟩ h
  obtain ⟨-, raw, hraw, -⟩ := readLine_eq_some.mp h
  rw [hraw] at hcut
  simp at hcut

/-! ## Delivery -/

/-- The text a command comes with. -/
def Command.argument : Command → Bytes
  | endPropose text | endVote text | initiate text | say text | deliver text | speak text
  | grant text => text
  | _ => []

theorem argument_parse (line : Bytes) : ∃ n, (Command.parse line).argument = line.drop n := by
  have hnothing : ∃ n, ([] : Bytes) = line.drop n := ⟨line.length, drop_length.symm⟩
  rw [Command.parse]
  repeat'
    refine iteInduction (motive := fun command ↦ ∃ n, Command.argument command = line.drop n)
      (fun _ ↦ ?_) fun _ ↦ ?_
  all_goals first | exact hnothing | exact ⟨_, rfl⟩

theorem mem_of_mem_argument {b : UInt8} (h : b ∈ (Command.parse line).argument) : b ∈ line := by
  obtain ⟨n, hn⟩ := argument_parse line
  rw [hn] at h
  exact mem_of_mem_drop h

/-- The line of a connection is what `network_read_line` has read. -/
def Connection.Read {cfg : Config} (c : Connection cfg) : Prop :=
  ∃ stream, c.line = (networkReadLine messageLength stream).map Prod.fst

theorem Connection.read_of_transmit {command : Bytes} (h : transmit command = c.line)
    (hne : c.line ≠ none) : c.Read := by
  rw [← h] at hne
  rw [transmit] at h hne
  cases hsend : sendCommand command with
  | none => exact absurd (by rw [hsend]; rfl) hne
  | some wire =>
    rw [hsend, Option.bind_some] at h
    exact ⟨wire, h.symm⟩

/-- There is neither a zero byte nor a newline in what is read. -/
theorem Connection.Read.argument (h : c.Read) {command : Command}
    (hcommand : c.command = some command) : 0 ∉ command.argument ∧ 10 ∉ command.argument := by
  obtain ⟨stream, hstream⟩ := h
  obtain ⟨line, hline, rfl⟩ := Option.map_eq_some_iff.mp hcommand
  obtain ⟨⟨line, rest⟩, hread, rfl⟩ := Option.map_eq_some_iff.mp (hstream.symm.trans hline)
  constructor
  · exact fun hzero ↦ ne_zero_of_mem_text (mem_of_mem_argument hzero) rfl
  · intro hnewline
    exact (not_mem_of_readLine hread).1 (takeWhile_subset _ (mem_of_mem_argument hnewline))

/-- A line that begins with `DELIVER` is a delivery. -/
theorem parse_deliver : Command.parse (ofAscii "DELIVER " ++ text) = .deliver text := by
  have hword : ofAscii "DELIVER " = [68, 69, 76, 73, 86, 69, 82, 32] := by decide
  rw [hword]
  simp [Command.parse, starts, ofAscii, List.isPrefixOf]

theorem parse_say : Command.parse (ofAscii "SAY " ++ text) = .say text := by
  have hword : ofAscii "SAY " = [83, 65, 89, 32] := by decide
  rw [hword]
  simp [Command.parse, starts, ofAscii, List.isPrefixOf]

section

variable {cfg : Config} {c : Connection cfg}

/-- On its own the handler of a delivery adds its text to the inbox. -/
theorem handleConnection_deliver {text : Bytes} (hcommand : c.command = some (.deliver text))
    (s : Hub cfg) : (handleConnection c).Alone (fun i _ _ ↦ i.works) s fun _ t ↦
      ∃ now, t.records .inbox = s.records .inbox ++ [⟨now, c.name, .message, text⟩] := by
  refine alone_bind (R := fun _ t ↦ t.records = s.records) (alone_change fun _ _ ↦ rfl)
    fun _ t ht ↦ ?_
  refine alone_bind (R := fun _ t ↦ ∃ now, t.records .inbox =
    s.records .inbox ++ [⟨now, c.name, .message, text⟩]) ?_ fun _ t ht ↦ alone_change fun _ _ ↦ ht
  rw [serveLine, hcommand]
  refine alone_bind (R := fun _ t ↦ t.records = s.records) (alone_atomic fun _ _ ↦ ht)
    fun _ t ht ↦ ?_
  refine alone_bind (R := fun _ t ↦ ∃ now, t.records .inbox =
    s.records .inbox ++ [⟨now, c.name, .message, text⟩]) (alone_change fun i hi ↦ ⟨i.now, ?_⟩)
    fun _ t ht ↦ ?_
  · rw [if_pos hi.2, ← ht]
    simp [Hub.append]
  refine alone_bind (R := fun _ t ↦ ∃ now, t.records .inbox =
    s.records .inbox ++ [⟨now, c.name, .message, text⟩]) ?_ fun _ t ht ↦ alone_change fun _ _ ↦ ht
  refine alone_bind (R := fun _ t ↦ ∃ now, t.records .inbox =
    s.records .inbox ++ [⟨now, c.name, .message, text⟩]) (alone_change fun _ _ ↦ ht)
    fun _ t ht ↦ ?_
  refine alone_bind (R := fun _ t ↦ ∃ now, t.records .inbox =
    s.records .inbox ++ [⟨now, c.name, .message, text⟩]) (alone_atomic fun _ _ ↦ ht)
    fun now t ht ↦ alone_change fun _ hi ↦ ?_
  rw [if_pos hi.1]
  exact ht

/-- A connection on which nothing arrives leaves the logs as they are. -/
theorem handleConnection_nothing {T : Env → Hub cfg → Hub cfg → Prop} (hline : c.line = none)
    (s : Hub cfg) : (handleConnection c).Alone T s fun _ t ↦ t.records = s.records := by
  have hcommand : c.command = none := by rw [Connection.command, hline, Option.map_none]
  refine alone_bind (R := fun _ t ↦ t.records = s.records) (alone_change fun _ _ ↦ rfl)
    fun _ t ht ↦ ?_
  rw [serveLine, hcommand]
  exact alone_bind (R := fun _ t ↦ t.records = s.records) (alone_pure ht) fun _ t ht ↦
    alone_change fun _ _ ↦ ht

end

/-- How long the name of the sender and the message may be together. -/
def deliveryLimit : Nat := messageLength - 11

/-- The command in which a message is relayed arrives if it is short enough; otherwise it has been
filled up to the last byte. -/
theorem transmit_deliverCommand (sender : Name) {message : Bytes}
    (hmessage : 10 ∉ message ∧ 13 ∉ message) : transmit (deliverCommand sender message) =
      if sender.bytes.length + message.length ≤ deliveryLimit ∧ 10 ∉ sender.bytes ∧
        13 ∉ sender.bytes
      then some (ofAscii "DELIVER " ++ (sender.bytes ++ [32] ++ message)) else none := by
  have hshort := sender.short
  have hword : (ofAscii "DELIVER ").length = 8 := by decide
  have hmem (b : UInt8) (hb : b = 10 ∨ b = 13) : b ∉ deliverCommand sender message ↔
      b ∉ sender.bytes := by
    have hnot : b ∉ message.take (messageLength - sender.bytes.length - 10) := by
      intro h
      rcases hb with rfl | rfl
      · exact hmessage.1 (mem_of_mem_take h)
      · exact hmessage.2 (mem_of_mem_take h)
    have hword : b ∉ ofAscii "DELIVER " := by rcases hb with rfl | rfl <;> decide
    have hspace : b ∉ ([32] : Bytes) := by rcases hb with rfl | rfl <;> decide
    simp only [deliverCommand, mem_append, hword, hspace, hnot, or_false, false_or]
  simp only [transmit_eq, hmem 10 (.inl rfl), hmem 13 (.inr rfl)]
  by_cases hfits : sender.bytes.length + message.length ≤ deliveryLimit
  · have hwhole : deliverCommand sender message =
        ofAscii "DELIVER " ++ (sender.bytes ++ [32] ++ message) := by
      rw [deliverCommand, take_of_length_le]
      · simp only [append_assoc]
      · rw [deliveryLimit] at hfits
        omega
    have hlength : (ofAscii "DELIVER " ++ (sender.bytes ++ [32] ++ message)).length + 1 <
        messageLength := by
      rw [deliveryLimit] at hfits
      simp only [length_append, hword, length_singleton]
      simp only [messageLength] at hfits ⊢
      omega
    rw [hwhole]
    simp only [hlength, hfits, and_true, true_and]
  · rw [if_neg, if_neg (fun h ↦ hfits h.1)]
    rintro ⟨-, -, hlength⟩
    rw [deliveryLimit] at hfits
    simp only [deliverCommand, length_append, hword, length_singleton,
      length_take] at hlength
    simp only [messageLength] at hlength hfits
    omega

/-- **A message reaches the inbox it is relayed to as it was said if, together with the name of its
sender, it has at most 8181 bytes; a longer one does not reach it.** -/
theorem delivery_intact_iff {cfg : Config} (sender : Name) (message : Bytes)
    {stream line rest : Bytes} (hread : networkReadLine messageLength stream = some (line, rest))
    (hcommand : Command.parse (CString.text line) = .say message ∨
      Command.parse (CString.text line) = .initiate message)
    (c : Connection cfg) (hline : c.line = transmit (deliverCommand sender message))
    {s t : Hub cfg} (ht : (handleConnection c).Leads (fun i _ _ ↦ i.works) s () t) :
    (∃ now, t.records .inbox = s.records .inbox ++
      [⟨now, c.name, .message, sender.bytes ++ [32] ++ message⟩]) ↔
      sender.bytes.length + message.length ≤ deliveryLimit ∧ 10 ∉ sender.bytes ∧
        13 ∉ sender.bytes := by
  have hmem (b : UInt8) (hb : b ∈ message) : b ∈ text line := by
    rcases hcommand with h | h
    · exact mem_of_mem_argument (by rw [h]; exact hb)
    · exact mem_of_mem_argument (by rw [h]; exact hb)
  have hbreaks := not_mem_of_readLine hread
  rw [transmit_deliverCommand sender
    ⟨fun h ↦ hbreaks.1 (takeWhile_subset _ (hmem _ h)),
      fun h ↦ hbreaks.2 (takeWhile_subset _ (hmem _ h))⟩] at hline
  split at hline
  · rename_i hfits
    refine iff_of_true (handleConnection_deliver ?_ s () t ht) hfits
    rw [Connection.command, hline, Option.map_some, text_of_ne_zero, parse_deliver]
    intro b hb
    simp only [mem_append, mem_singleton] at hb
    rcases hb with hb | (hb | rfl) | hb
    · revert b
      decide
    · exact sender.ne_zero b hb
    · decide
    · exact ne_zero_of_mem_text (hmem b hb)
  · rename_i hlong
    refine iff_of_false ?_ hlong
    rintro ⟨now, hinbox⟩
    rw [handleConnection_nothing hline s () t ht] at hinbox
    simp at hinbox

namespace small

/-- Something alice says reaches bob's service from the hub. -/
def delivery (message : Bytes) : Connection small where
  socket := 0
  person := ⟨3, by decide⟩
  line := transmit (deliverCommand (small.contact alice).name message)

end small

theorem delivery_intact_hello :
    networkReadLine messageLength (Bytes.ofAscii "SAY hello\n") =
        some (Bytes.ofAscii "SAY hello", []) ∧
      ∃ now, ((handleConnection (small.delivery (Bytes.ofAscii "hello"))).finish small.noon
        small.start).2.records .inbox = small.start.records .inbox ++
          [⟨now, .snprintf (Bytes.ofAscii "hub"), .message,
            (small.contact small.alice).name.bytes ++ [32] ++ Bytes.ofAscii "hello"⟩] := by
  have hread : networkReadLine messageLength (ofAscii "SAY hello\n") =
      some (ofAscii "SAY hello", []) := by decide +kernel
  exact ⟨hread, (delivery_intact_iff (small.contact small.alice).name (ofAscii "hello") hread
    (.inl rfl) (small.delivery (ofAscii "hello")) rfl
    (leads_finish (throughout_of_forall (fun _ _ ↦ small.noon_works) _ _))).mpr
    (by decide +kernel)⟩

/-- **The longest message that can be said.**  It is read, but what is relayed of it does not arrive
at all. -/
theorem longest_message_lost :
    networkReadLine messageLength (Bytes.ofAscii "SAY " ++ List.replicate 8186 97 ++ [10]) =
        some (Bytes.ofAscii "SAY " ++ List.replicate 8186 97, []) ∧
      Command.parse (CString.text (Bytes.ofAscii "SAY " ++ List.replicate 8186 97)) =
        .say (List.replicate 8186 97) ∧
      ∀ s t, (handleConnection (small.delivery (List.replicate 8186 97))).Leads
        (fun i _ _ ↦ i.works) s () t → t.records .inbox = s.records .inbox := by
  obtain ⟨message, hmessage, hlength, hall⟩ :
      ∃ message, message = List.replicate 8186 (97 : UInt8) ∧
      message.length = 8186 ∧ ∀ b ∈ message, b = 97 :=
    ⟨_, rfl, length_replicate, fun _ ↦ eq_of_mem_replicate⟩
  rw [← hmessage]
  have hbytes (b : UInt8) (hb : b ∈ ofAscii "SAY " ++ message) :
      b ≠ 0 ∧ b ≠ 10 ∧ b ≠ 13 := by
    have hword : ∀ b ∈ ofAscii "SAY ", b ≠ 0 ∧ b ≠ 10 ∧ b ≠ 13 := by decide
    rcases mem_append.mp hb with hb | hb
    · exact hword b hb
    · rw [hall b hb]
      decide
  refine ⟨readLine_eq_some.mpr ⟨?_, _, rfl, fun h ↦ (hbytes 10 h).2.1 rfl, ?_⟩, ?_, fun s t ht ↦ ?_⟩
  · rw [length_append, hlength]
    decide
  · rw [eq_comm, filter_eq_self]
    intro b hb
    rw [decide_eq_true_eq]
    exact (hbytes b hb).2.2
  · rw [text_of_ne_zero fun b hb ↦ (hbytes b hb).1, parse_say]
  · rw [handleConnection_nothing ?_ s () t ht]
    refine (transmit_deliverCommand _ ?_).trans (if_neg ?_)
    · exact ⟨fun h ↦ (hbytes 10 (mem_append_right _ h)).2.1 rfl,
        fun h ↦ (hbytes 13 (mem_append_right _ h)).2.2 rfl⟩
    · rw [hlength]
      decide

end Noobia.Council
