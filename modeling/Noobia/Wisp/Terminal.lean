import Noobia.Lib.Slots
import Noobia.Lib.Trace
import Noobia.Wisp.Events

/-!
# The terminal

One thread reads the output of the shell, keeps the last 256 KiB of it and sends it to every browser
that has a stream (`pty_reader`).  A browser gets a stream in a thread of its own, and what has been
kept is sent to it first (`start_stream`).  Both take `stream_lock`.

The model is cut at the calls that wait: `read`, taking the lock, and every `sse_send`.  While
`pty_reader` goes through the slots it has the lock, so that no stream is started in the meantime;
everything `start_stream` does under the lock is one step.  A write gets all its bytes through or
fails after some of them.  A connection is known by a number of its own; the descriptor stays open
as long as it is in a slot, and is not used for another connection before.

`terminal_streams` is about every state that an interleaving leads to.  A browser whose writes have
succeeded has been shown the end of what had been put out when it got its stream, up to 256 KiB, and
everything since then, but for the chunk that `pty_reader` is just sending and has not come to it
with.
-/

namespace Noobia.Wisp

open List

open Bytes (ofAscii)

def historyMax : Nat := 256 * 1024

def sseMax : Nat := 16

/-- What is sent when the shell has ended. -/
def closedNotice : Bytes := ofAscii "\r\n[wisp shell closed]\r\n"

/-! ## The state -/

/-- How far the request for a stream has come. -/
inductive Stage
  /-- The head has been written; the thread is about to take the lock. -/
  | waiting
  /-- The head could not be written, and the thread has returned. -/
  | abandoned
  /-- There was no slot, and the connection was closed. -/
  | refused
  /-- There is a slot for it. -/
  | connected
  /-- It had a slot, and has been closed. -/
  | closed
  deriving DecidableEq

/-- A connection. -/
structure Client where
  stage : Stage
  /-- The bytes that have got through. -/
  received : Bytes
  /-- No write has failed. -/
  ok : Bool
  /-- How much had been put out when it got its slot. -/
  before : Nat

/-- A write gets through, or fails after so many bytes. -/
def Client.write (client : Client) (bytes : Bytes) : Option Nat → Client
  | none => { client with received := client.received ++ bytes }
  | some n => { client with received := client.received ++ bytes.take n, ok := false }

/-- How far `pty_reader` has come. -/
inductive PtyReader
  /-- It is waiting for output. -/
  | reading
  /-- It has read a chunk and is about to take the lock. -/
  | waiting (chunk : Bytes)
  /-- It has the lock, and the chunk is next sent to this slot. -/
  | sending (chunk : Bytes) (slot : Nat)
  /-- There is no more output, and it is about to take the lock. -/
  | ending
  /-- It has the lock, and this slot is the next to be closed. -/
  | closing (slot : Nat)
  | ended

/-- Whether `pty_reader` has the lock. -/
def PtyReader.locked : PtyReader → Bool
  | .sending .. => true
  | .closing _ => true
  | .reading => false
  | .waiting _ => false
  | .ending => false
  | .ended => false

/-- Whether it has begun to close the streams. -/
def PtyReader.over : PtyReader → Bool
  | .closing _ => true
  | .ended => true
  | .reading => false
  | .waiting _ => false
  | .sending .. => false
  | .ending => false

/-- The state of the server, as far as the terminal goes. -/
structure Terminal where
  reader : PtyReader := .reading
  /-- The first `history_len` bytes of `history`. -/
  history : Bytes := []
  /-- The connections in the slots. -/
  streams : List (Option Nat) := List.replicate sseMax none
  clients : List Client := []
  /-- Everything that has been put into `history`; `output_run` says that it is what was read. -/
  output : Bytes := []

/-! ## The steps -/

/-- What `pty_reader` does to `history`. -/
def pushHistory (history buf : Bytes) : Bytes :=
  if historyMax < history.length + buf.length then
    history.drop (history.length + buf.length - historyMax) ++ buf
  else history ++ buf

namespace Terminal

variable (t : Terminal)

def sseSend (k : Nat) (bytes : Bytes) (fate : Option Nat) : Terminal :=
  { t with clients := t.clients.modify k (·.write (sseEvent bytes) fate) }

/-- `close(streams[slot]); streams[slot] = -1`. -/
def hangUp (slot k : Nat) : Terminal :=
  { t with
    streams := t.streams.set slot none
    clients := t.clients.modify k ({ · with stage := .closed }) }

/-- One round of the loops of `pty_reader`: the bytes are sent, and the connection is closed if that
fails or if it is the last thing to be sent. -/
def serveSlot (slot : Nat) (bytes : Bytes) (last : Bool) (fate : Option Nat) : Terminal :=
  match t.streams[slot]? with
  | some (some k) =>
    if last || fate.isSome then (t.sseSend k bytes fate).hangUp slot k else t.sseSend k bytes fate
  | some none => t
  | none => t

/-- `pty_reader` reads at most 4096 bytes, or is told that there are no more. -/
def read : Option Bytes → Terminal
  | none =>
    match t.reader with
    | .reading => { t with reader := .ending }
    | _ => t
  | some chunk =>
    match t.reader with
    | .reading =>
      if 0 < chunk.length ∧ chunk.length ≤ 4096 then { t with reader := .waiting chunk } else t
    | _ => t

/-- `pty_reader` takes the lock. -/
def lock : Terminal :=
  match t.reader with
  | .waiting chunk =>
    { t with
      reader := .sending chunk 0
      history := pushHistory t.history chunk
      output := t.output ++ chunk }
  | .ending => { t with reader := .closing 0 }
  | _ => t

/-- `pty_reader` goes on to the next slot, or leaves the lock after the last one. -/
def send (fate : Option Nat) : Terminal :=
  match t.reader with
  | .sending chunk slot =>
    if slot < sseMax then
      { t.serveSlot slot chunk false fate with reader := .sending chunk (slot + 1) }
    else { t with reader := .reading }
  | .closing slot =>
    if slot < sseMax then
      { t.serveSlot slot closedNotice true fate with reader := .closing (slot + 1) }
    else { t with reader := .ended }
  | _ => t

/-- A connection asks for a stream: the beginning of `start_stream`. -/
def connect (fate : Option Nat) : Terminal :=
  { t with clients := t.clients ++ [(⟨if fate.isSome then .abandoned else .waiting, [], true, 0⟩ :
      Client).write streamHead fate] }

/-- The rest of `start_stream`, under the lock. -/
def join (k : Nat) (fate : Option Nat) : Terminal :=
  if t.reader.locked || (t.clients[k]?).all (·.stage ≠ .waiting) then t
  else
    match t.streams.findIdx? (·.isNone) with
    | none => { t with clients := t.clients.modify k ({ · with stage := .refused }) }
    | some slot =>
      let joined := { t with
        streams := t.streams.set slot (some k)
        clients := t.clients.modify k
          ({ · with stage := .connected, before := t.output.length }) }
      if t.history.isEmpty then joined else joined.sseSend k t.history fate

end Terminal

/-- What happens next. -/
inductive TerminalAction
  | read (chunk : Option Bytes)
  | lock
  | send (fate : Option Nat)
  | connect (fate : Option Nat)
  | join (k : Nat) (fate : Option Nat)

/-- A step of the server. -/
def Terminal.step (t : Terminal) : TerminalAction → Terminal
  | .read chunk => t.read chunk
  | .lock => t.lock
  | .send fate => t.send fate
  | .connect fate => t.connect fate
  | .join k fate => t.join k fate

/-! ## The invariant -/

/-- The connection has been shown this text, and nothing else has got through. -/
def Client.Follows (client : Client) (text : Bytes) : Prop :=
  ∃ chunks : List Bytes, client.received = streamHead ++ chunks.flatMap sseEvent ∧
    chunks.flatten = text

theorem Client.Follows.shown {client : Client} {text : Bytes} (h : client.Follows text) :
    shown client.received = text := by
  obtain ⟨chunks, hreceived, htext⟩ := h
  rw [hreceived, shown_events, htext]

theorem Client.Follows.write {client : Client} {text : Bytes} (h : client.Follows text)
    (bytes : Bytes) : (client.write (sseEvent bytes) none).Follows (text ++ bytes) := by
  obtain ⟨chunks, hreceived, htext⟩ := h
  refine ⟨chunks ++ [bytes], ?_, ?_⟩
  · rw [Client.write, hreceived]
    simp
  · rw [flatten_concat, htext]

namespace Terminal

variable (t : Terminal)

/-- The chunk that is on its way to the slot. -/
def pending (slot : Nat) : Bytes :=
  match t.reader with
  | .sending chunk next => if next ≤ slot then chunk else []
  | _ => []

/-- What a connection is to be shown: up to 256 KiB of what had been put out when it got its slot,
and everything since then. -/
def since (before : Nat) : Bytes := t.output.drop (before - historyMax)

/-- What holds of a connection. -/
def Fine (k : Nat) (client : Client) : Prop :=
  match client.stage with
  | .waiting => client.received = streamHead
  | .abandoned => True
  | .refused => True
  | .connected => ∃ slot, t.streams[slot]? = some (some k) ∧ client.before ≤ t.output.length ∧
      (client.ok = true → ∃ text, client.Follows text ∧
        text ++ t.pending slot = t.since client.before)
  | .closed => client.ok = true →
      t.reader.over = true ∧ client.Follows (t.since client.before ++ closedNotice)

/-- **The invariant of the terminal.** -/
structure Inv : Prop where
  history : t.history = t.output.drop (t.output.length - historyMax)
  chunk : ∀ chunk, t.reader = .waiting chunk → chunk.length ≤ 4096
  length : t.streams.length = sseMax
  client : ∀ (k : Nat) (client : Client), t.clients[k]? = some client → t.Fine k client
  slot : ∀ slot k : Nat, t.streams[slot]? = some (some k) →
    ∃ client : Client, t.clients[k]? = some client ∧ client.stage = .connected
  single : ∀ slot slot' k : Nat, t.streams[slot]? = some (some k) →
    t.streams[slot']? = some (some k) → slot = slot'

variable {t}

theorem inv_init : ({} : Terminal).Inv where
  history := rfl
  chunk := fun _ h ↦ nomatch h
  length := rfl
  client := fun _ _ h ↦ nomatch h
  slot := fun slot k h ↦ by
    rw [getElem?_replicate] at h
    split at h <;> cases h
  single := fun slot slot' k h ↦ by
    rw [getElem?_replicate] at h
    split at h <;> cases h

/-- A connection is fine if it was before, as long as its slot and what is on the way to it are the
same. -/
theorem Fine.of_eq {k : Nat} {client : Client} (h : t.Fine k client) {t' : Terminal}
    (houtput : t'.output = t.output)
    (hslot : ∀ slot : Nat, t.streams[slot]? = some (some k) →
      t'.streams[slot]? = some (some k) ∧ t'.pending slot = t.pending slot)
    (hover : t.reader.over = true → t'.reader.over = true) : t'.Fine k client := by
  rw [Fine] at h ⊢
  split
  · rename_i hstage
    rw [hstage] at h
    exact h
  · trivial
  · trivial
  · rename_i hstage
    rw [hstage] at h
    obtain ⟨slot, hstream, hbefore, htext⟩ := h
    refine ⟨slot, (hslot slot hstream).1, houtput ▸ hbefore, fun hok ↦ ?_⟩
    rw [(hslot slot hstream).2, since, houtput]
    exact htext hok
  · rename_i hstage
    rw [hstage] at h
    intro hok
    rw [since, houtput]
    exact ⟨hover (h hok).1, (h hok).2⟩

theorem Fine.of_closed {k : Nat} {client : Client} (hstage : client.stage = .closed)
    (h : client.ok = true → t.reader.over = true ∧
      client.Follows (t.since client.before ++ closedNotice)) : t.Fine k client := by
  rw [Fine, hstage]
  exact h

theorem Fine.connected {k : Nat} {client : Client} (h : t.Fine k client)
    (hstage : client.stage = .connected) : ∃ slot, t.streams[slot]? = some (some k) ∧
      client.before ≤ t.output.length ∧ (client.ok = true → ∃ text, client.Follows text ∧
        text ++ t.pending slot = t.since client.before) := by
  rw [Fine, hstage] at h
  exact h

variable {slot : Nat}

theorem Fine.of_connected {k : Nat} {client : Client} (hstage : client.stage = .connected)
    (hslot : t.streams[slot]? = some (some k)) (hbefore : client.before ≤ t.output.length)
    (htext : client.ok = true → ∃ text, client.Follows text ∧
      text ++ t.pending slot = t.since client.before) : t.Fine k client := by
  rw [Fine, hstage]
  exact ⟨slot, hslot, hbefore, htext⟩

theorem Inv.served (h : t.Inv) {k : Nat} {client : Client}
    (hslot : t.streams[slot]? = some (some k)) (hclient : t.clients[k]? = some client) :
    client.stage = .connected ∧ client.before ≤ t.output.length ∧ (client.ok = true →
      ∃ text, client.Follows text ∧ text ++ t.pending slot = t.since client.before) := by
  obtain ⟨client', hclient', hstage⟩ := h.slot slot k hslot
  obtain rfl := Option.some.inj (hclient.symm.trans hclient')
  obtain ⟨slot', hslot', hserved⟩ := (h.client k client hclient).connected hstage
  obtain rfl := h.single _ _ k hslot hslot'
  exact ⟨hstage, hserved⟩

/-! ## The shell puts something out -/

/-- **The window slides.** -/
theorem pushHistory_eq {output buf : Bytes} (hbuf : buf.length ≤ 4096) :
    pushHistory (output.drop (output.length - historyMax)) buf =
      (output ++ buf).drop ((output ++ buf).length - historyMax) := by
  have hmax : historyMax = 262144 := rfl
  have hle : (output ++ buf).length - historyMax ≤ output.length := by
    rw [length_append]
    omega
  have hslide : output.length - historyMax + (output.length - (output.length - historyMax) +
      buf.length - historyMax) = output.length + buf.length - historyMax := by omega
  rw [pushHistory, drop_append_of_le_length hle, length_append, length_drop,
    drop_drop, hslide]
  split
  · rfl
  · have hall : output.length - historyMax = output.length + buf.length - historyMax := by omega
    rw [hall]

variable {reader : PtyReader}

/-- `pty_reader` goes on without doing anything to the streams. -/
theorem inv_reader (h : t.Inv)
    (hpending : ∀ slot k : Nat, t.streams[slot]? = some (some k) →
      ({ t with reader } : Terminal).pending slot = t.pending slot)
    (hover : t.reader.over = true → reader.over = true)
    (hwaiting : ∀ chunk, reader = .waiting chunk → chunk.length ≤ 4096) :
    ({ t with reader } : Terminal).Inv := by
  refine ⟨h.history, hwaiting, h.length, fun k client hclient ↦ ?_, h.slot, h.single⟩
  exact (h.client k client hclient).of_eq rfl
    (fun slot hslot ↦ ⟨hslot, hpending slot k hslot⟩) hover

theorem inv_read (h : t.Inv) (chunk : Option Bytes) : (t.read chunk).Inv := by
  rw [read.eq_def]
  split
  · split
    · rename_i hreader
      refine inv_reader h (fun _ _ _ ↦ ?_) (fun hover ↦ ?_) (fun _ hwaiting ↦ nomatch hwaiting)
      · rw [pending, pending, hreader]
      · rw [hreader] at hover
        exact hover
    · exact h
  · split
    · rename_i hreader
      split
      · rename_i hsize
        refine inv_reader h (fun _ _ _ ↦ ?_) (fun hover ↦ ?_) ?_
        · rw [pending, pending, hreader]
        · rw [hreader] at hover
          exact hover
        · rintro _ ⟨⟩
          exact hsize.2
      · exact h
    · exact h

/-- What is yet to be shown after a chunk: the chunk. -/
theorem since_append {before : Nat} (hbefore : before ≤ t.output.length) (chunk : Bytes) :
    (t.output ++ chunk).drop (before - historyMax) = t.since before ++ chunk :=
  drop_append_of_le_length (by omega)

theorem inv_lock (h : t.Inv) : t.lock.Inv := by
  rw [lock]
  split
  · rename_i chunk hreader
    refine ⟨?_, (fun _ hwaiting ↦ nomatch hwaiting), h.length, fun k client hclient ↦ ?_, h.slot,
      h.single⟩
    · rw [h.history]
      exact pushHistory_eq (h.chunk chunk hreader)
    have hfine := h.client k client hclient
    rw [Fine] at hfine ⊢
    split
    · rename_i hstage
      rw [hstage] at hfine
      exact hfine
    · trivial
    · trivial
    · rename_i hstage
      rw [hstage] at hfine
      obtain ⟨slot, hslot, hbefore, htext⟩ := hfine
      refine ⟨slot, hslot, ?_, fun hok ↦ ?_⟩
      · rw [length_append]
        omega
      obtain ⟨text, hfollows, hall⟩ := htext hok
      rw [pending, hreader] at hall
      refine ⟨text, hfollows, ?_⟩
      rw [since, since_append hbefore, ← hall, append_nil]
      rfl
    · rename_i hstage
      rw [hstage] at hfine
      intro hok
      rw [hreader] at hfine
      exact absurd (hfine hok).1 Bool.false_ne_true
  · rename_i hreader
    refine inv_reader h (fun _ _ _ ↦ ?_) (fun _ ↦ rfl) (fun _ hwaiting ↦ nomatch hwaiting)
    rw [pending, pending, hreader]
  · exact h

/-! ## It is sent to the streams -/

theorem ne_of_stream {slot' k j : Nat} (hslot : t.streams[slot]? = some (some k))
    (hslot' : t.streams[slot']? = some (some j)) (hj : k ≠ j) : slot ≠ slot' := by
  rintro rfl
  rw [hslot] at hslot'
  exact hj (Option.some.inj (Option.some.inj hslot'))

theorem inv_deliver (h : t.Inv) {chunk : Bytes} {k : Nat}
    (hreader : t.reader = .sending chunk slot) (hslot : t.streams[slot]? = some (some k)) :
    ({ t.sseSend k chunk none with reader := .sending chunk (slot + 1) } : Terminal).Inv := by
  have hother (slot' : Nat) (hne : slot ≠ slot') : ({ t.sseSend k chunk none with
      reader := .sending chunk (slot + 1) } : Terminal).pending slot' = t.pending slot' := by
    rw [pending, pending, hreader]
    exact if_congr (by omega) rfl rfl
  refine ⟨h.history, (fun _ hwaiting ↦ nomatch hwaiting), h.length, fun j client hmodified ↦ ?_, ?_,
    h.single⟩
  · obtain ⟨client, hclient, rfl⟩ := Slots.exists_of_modify hmodified
    split
    · rename_i hj
      subst hj
      obtain ⟨hstage, hbefore, htext⟩ := h.served hslot hclient
      refine .of_connected hstage hslot hbefore fun hok ↦ ?_
      obtain ⟨text, hfollows, hall⟩ := htext hok
      refine ⟨text ++ chunk, hfollows.write chunk, ?_⟩
      rw [pending, hreader] at hall
      dsimp only at hall
      rw [if_pos le_rfl] at hall
      rw [pending]
      dsimp only
      rw [if_neg (by omega), append_nil, hall]
      rfl
    · rename_i hj
      refine (h.client j client hclient).of_eq rfl (fun slot' hslot' ↦ ⟨hslot', ?_⟩) fun hover ↦ ?_
      · exact hother slot' (ne_of_stream hslot hslot' hj)
      · rw [hreader] at hover
        exact absurd hover Bool.false_ne_true
  · intro slot' j hslot'
    obtain ⟨client, hclient, hstage⟩ := h.slot slot' j hslot'
    refine ⟨if k = j then client.write (sseEvent chunk) none else client, ?_, ?_⟩
    · exact (getElem?_modify ..).trans (by rw [hclient]; rfl)
    split
    · exact hstage
    · exact hstage

/-- A connection is closed, after a last write that failed or that was meant to be the last. -/
theorem inv_hangUp (h : t.Inv) {k : Nat} (hslot : t.streams[slot]? = some (some k))
    (hpending : ∀ slot', slot ≠ slot' →
      ({ t with reader } : Terminal).pending slot' = t.pending slot')
    (hover : t.reader.over = true → reader.over = true)
    (hwaiting : ∀ chunk, reader ≠ .waiting chunk) {bytes : Bytes} {fate : Option Nat}
    (hlast : fate = none → reader.over = true ∧ bytes = closedNotice ∧ t.pending slot = []) :
    ({ (t.sseSend k bytes fate).hangUp slot k with reader } : Terminal).Inv := by
  refine ⟨h.history, fun chunk hchunk ↦ absurd hchunk (hwaiting chunk),
    length_set.trans h.length, fun j closed hclosed ↦ ?_, ?_, ?_⟩
  · obtain ⟨written, hwritten, rfl⟩ := Slots.exists_of_modify hclosed
    obtain ⟨client, hclient, rfl⟩ := Slots.exists_of_modify hwritten
    by_cases hj : k = j
    · subst hj
      obtain ⟨-, -, htext⟩ := h.served hslot hclient
      rw [if_pos rfl, if_pos rfl]
      refine .of_closed rfl fun hok ↦ ?_
      cases fate with
      | some n => cases hok
      | none =>
        obtain ⟨hend, rfl, hnone⟩ := hlast rfl
        obtain ⟨text, hfollows, hall⟩ := htext hok
        rw [hnone, append_nil] at hall
        exact ⟨hend, hall ▸ hfollows.write closedNotice⟩
    · rw [if_neg hj, if_neg hj]
      refine (h.client j client hclient).of_eq rfl (fun slot' hslot' ↦ ?_) hover
      have hne := ne_of_stream hslot hslot' hj
      exact ⟨(getElem?_set_ne hne).trans hslot', hpending slot' hne⟩
  · intro slot' j hslot'
    obtain ⟨hne, hslot'⟩ := Slots.of_set_none hslot'
    obtain ⟨client, hclient, hstage⟩ := h.slot slot' j hslot'
    have hj : k ≠ j := by
      rintro rfl
      exact hne (h.single _ _ k hslot hslot')
    refine ⟨client, ?_, hstage⟩
    exact (getElem?_modify_ne _ _ hj).trans ((getElem?_modify_ne _ _ hj).trans hclient)
  · intro slot' slot'' j hslot' hslot''
    exact h.single _ _ j (Slots.of_set_none hslot').2 (Slots.of_set_none hslot'').2

/-- **`pty_reader` goes on to the next slot.** -/
theorem inv_send (h : t.Inv) (fate : Option Nat) : (t.send fate).Inv := by
  rw [send]
  split
  · rename_i chunk slot hreader
    have hother (slot' : Nat) (hne : slot ≠ slot') :
        ({ t with reader := .sending chunk (slot + 1) } : Terminal).pending slot' =
          t.pending slot' := by
      rw [pending, pending, hreader]
      exact if_congr (by omega) rfl rfl
    have hover : t.reader.over = false := by rw [hreader]; rfl
    have hskip (hslot : ∀ k, t.streams[slot]? ≠ some (some k)) :
        ({ t with reader := .sending chunk (slot + 1) } : Terminal).Inv := by
      refine inv_reader h (fun slot' k hslot' ↦ hother slot' ?_) (by simp [hover])
        (fun _ hwaiting ↦ nomatch hwaiting)
      rintro rfl
      exact hslot k hslot'
    split
    · rw [serveSlot]
      split
      · rename_i k hslot
        cases fate with
        | none => exact inv_deliver h hreader hslot
        | some n => exact inv_hangUp h hslot hother (by simp [hover]) (fun _ ↦ nofun) nofun
      · rename_i hslot
        exact hskip fun k hk ↦ nomatch hslot.symm.trans hk
      · rename_i hslot
        exact hskip fun k hk ↦ nomatch hslot.symm.trans hk
    · rename_i hend
      refine inv_reader h (fun slot' k hslot' ↦ ?_) (by simp [hover])
        (fun _ hwaiting ↦ nomatch hwaiting)
      have hlt := (List.getElem?_eq_some_iff.mp hslot').1
      rw [h.length] at hlt
      rw [pending, pending, hreader]
      exact (if_neg (by omega)).symm
  · rename_i slot hreader
    have hnone (slot' : Nat) : t.pending slot' = [] := by rw [pending, hreader]
    have hskip : ({ t with reader := .closing (slot + 1) } : Terminal).Inv :=
      inv_reader h (fun slot' _ _ ↦ (hnone slot').symm) (fun _ ↦ rfl)
        (fun _ hwaiting ↦ nomatch hwaiting)
    split
    · rw [serveSlot]
      split
      · rename_i k hslot
        have hother (slot' : Nat) (_ : slot ≠ slot') :
            ({ t with reader := .closing (slot + 1) } : Terminal).pending slot' = t.pending slot' :=
          (hnone slot').symm
        exact inv_hangUp h hslot hother (fun _ ↦ rfl) (fun _ ↦ nofun)
          fun _ ↦ ⟨rfl, rfl, hnone slot⟩
      · exact hskip
      · exact hskip
    · exact inv_reader h (fun slot' _ _ ↦ (hnone slot').symm) (fun _ ↦ rfl)
        (fun _ hwaiting ↦ nomatch hwaiting)
  · exact h

/-! ## Streams are started -/

theorem inv_connect (h : t.Inv) (fate : Option Nat) : (t.connect fate).Inv := by
  refine ⟨h.history, h.chunk, h.length, fun k client hclient ↦ ?_, fun slot k hslot ↦ ?_, h.single⟩
  · rw [connect, getElem?_append] at hclient
    split at hclient
    · exact (h.client k client hclient).of_eq rfl (fun slot hslot ↦ ⟨hslot, rfl⟩) id
    rw [getElem?_singleton] at hclient
    split at hclient
    · obtain rfl := Option.some.inj hclient
      cases fate with
      | none => exact nil_append streamHead
      | some n => trivial
    · cases hclient
  · obtain ⟨client, hclient, hstage⟩ := h.slot slot k hslot
    refine ⟨client, ?_, hstage⟩
    exact (getElem?_append_left (List.getElem?_eq_some_iff.mp hclient).1).trans hclient

section

variable {k : Nat} {client : Client} (hclient : t.clients[k]? = some client)
  (hstage : client.stage = .waiting)
include hclient hstage

theorem ne_of_waiting (h : t.Inv) {j : Nat} (hslot : t.streams[slot]? = some (some j)) : k ≠ j := by
  rintro rfl
  obtain ⟨client', hclient', hstage'⟩ := h.slot slot k hslot
  obtain rfl := Option.some.inj (hclient.symm.trans hclient')
  rw [hstage] at hstage'
  cases hstage'

theorem inv_refuse (h : t.Inv) : ({ t with
    clients := t.clients.modify k ({ · with stage := .refused }) } : Terminal).Inv := by
  refine ⟨h.history, h.chunk, h.length, fun j refused hrefused ↦ ?_, fun slot j hslot ↦ ?_,
    h.single⟩
  · obtain ⟨client', hclient', rfl⟩ := Slots.exists_of_modify hrefused
    split
    · trivial
    · exact (h.client j client' hclient').of_eq rfl (fun slot hslot ↦ ⟨hslot, rfl⟩) id
  · obtain ⟨client', hclient', hstage'⟩ := h.slot slot j hslot
    refine ⟨client', ?_, hstage'⟩
    exact (getElem?_modify_ne _ _ (ne_of_waiting hclient hstage h hslot)).trans hclient'

/-- A connection gets a free slot, and what has been kept is sent to it. -/
theorem inv_accept (h : t.Inv) (hslot : t.streams[slot]? = some none)
    (hpending : t.pending slot = []) {f : Client → Client}
    (hconnected : (f client).stage = .connected)
    (hbefore : (f client).before = t.output.length)
    (hfollows : (f client).ok = true → (f client).Follows t.history) :
    ({ t with streams := t.streams.set slot (some k), clients := t.clients.modify k f } :
      Terminal).Inv := by
  have hlt := (List.getElem?_eq_some_iff.mp hslot).1
  refine ⟨h.history, h.chunk, length_set.trans h.length, fun j joined hjoined ↦ ?_,
    fun slot' j hslot' ↦ ?_, fun slot' slot'' j hslot' hslot'' ↦ ?_⟩
  · rcases Slots.of_modify hclient hjoined with ⟨rfl, rfl⟩ | ⟨-, hjoined⟩
    · refine .of_connected hconnected (getElem?_set_self hlt) hbefore.le fun hok ↦ ?_
      refine ⟨t.history, hfollows hok, ?_⟩
      rw [hbefore, since, ← h.history]
      exact (congrArg (t.history ++ ·) hpending).trans (append_nil _)
    · refine (h.client j joined hjoined).of_eq rfl (fun slot' hslot' ↦ ⟨?_, rfl⟩) id
      refine (getElem?_set_ne ?_).trans hslot'
      rintro rfl
      cases hslot.symm.trans hslot'
  · rcases Slots.of_set_some hslot' with ⟨-, rfl⟩ | ⟨-, hslot'⟩
    · exact ⟨f client, (getElem?_modify_eq ..).trans (by rw [hclient]; rfl), hconnected⟩
    obtain ⟨client', hclient', hstage'⟩ := h.slot slot' j hslot'
    refine ⟨client', ?_, hstage'⟩
    exact (getElem?_modify_ne _ _ (ne_of_waiting hclient hstage h hslot')).trans hclient'
  · rcases Slots.of_set_some hslot' with ⟨rfl, rfl⟩ | ⟨-, hslot'⟩
    · rcases Slots.of_set_some hslot'' with ⟨rfl, -⟩ | ⟨-, hslot''⟩
      · rfl
      · exact absurd rfl (ne_of_waiting hclient hstage h hslot'')
    · rcases Slots.of_set_some hslot'' with ⟨rfl, rfl⟩ | ⟨-, hslot''⟩
      · exact absurd rfl (ne_of_waiting hclient hstage h hslot')
      · exact h.single _ _ j hslot' hslot''

end

theorem inv_join (h : t.Inv) (k : Nat) (fate : Option Nat) : (t.join k fate).Inv := by
  rw [join]
  split
  · exact h
  rename_i henter
  rw [Bool.or_eq_true, not_or, Bool.not_eq_true] at henter
  obtain ⟨hfree, hwaiting⟩ := henter
  obtain ⟨client, hclient, hstage⟩ : ∃ client, t.clients[k]? = some client ∧
      client.stage = .waiting := by
    cases hclient : t.clients[k]? with
    | none => simp [hclient] at hwaiting
    | some client => exact ⟨client, rfl, by simpa [hclient] using hwaiting⟩
  have hreceived : client.received = streamHead := by
    have hfine := h.client k client hclient
    rw [Fine, hstage] at hfine
    exact hfine
  split
  · exact inv_refuse hclient hstage h
  rename_i slot hfind
  have hslot : t.streams[slot]? = some none := by
    obtain ⟨hlt, hnone, -⟩ := findIdx?_eq_some_iff_getElem.mp hfind
    rw [getElem?_eq_getElem hlt, Option.isNone_iff_eq_none.mp hnone]
  have hpending : t.pending slot = [] := by
    rw [pending]
    cases hreader : t.reader with
    | sending chunk next => rw [hreader] at hfree; cases hfree
    | reading | waiting chunk | ending | closing next | ended => rfl
  dsimp only
  split
  · rename_i hempty
    refine inv_accept hclient hstage h hslot hpending rfl rfl fun _ ↦ ⟨[], ?_, ?_⟩
    · exact hreceived.trans (append_nil _).symm
    · exact (List.isEmpty_iff.mp hempty).symm
  · rw [sseSend, modify_modify_eq]
    refine inv_accept hclient hstage h hslot hpending ?_ ?_ fun hok ↦ ?_
    · cases fate <;> rfl
    · cases fate <;> rfl
    cases fate with
    | some n => cases hok
    | none =>
      refine ⟨[t.history], ?_, flatten_singleton⟩
      rw [Function.comp, Client.write, hreceived, flatMap_singleton]

/-- **Every step keeps the invariant.** -/
theorem inv_step (h : t.Inv) (action : TerminalAction) : (t.step action).Inv := by
  cases action with
  | read chunk => exact inv_read h chunk
  | lock => exact inv_lock h
  | send fate => exact inv_send h fate
  | connect fate => exact inv_connect h fate
  | join k fate => exact inv_join h k fate

/-! ## Where the output comes from -/

/-- What an action gets from the shell. -/
def shellRead (t : Terminal) : TerminalAction → Bytes
  | .read (some chunk) =>
    match t.reader with
    | .reading => if 0 < chunk.length ∧ chunk.length ≤ 4096 then chunk else []
    | _ => []
  | _ => []

/-- What these actions get from the shell, one after the other. -/
def produced (t : Terminal) : List TerminalAction → Bytes
  | [] => []
  | action :: actions => t.shellRead action ++ (t.step action).produced actions

/-- The chunk that has been read and not yet been put out. -/
def held (t : Terminal) : Bytes :=
  match t.reader with
  | .waiting chunk => chunk
  | _ => []

/-- `pty_reader` takes the lock and goes through the slots. -/
def rest : List TerminalAction := .lock :: replicate (sseMax + 1) (.send none)

/-- What there is to say about the streams, `produced` being what the shell has put out. -/
structure Consistent (produced : Bytes) (t : Terminal) : Prop where
  /-- Nothing that was read is lost: it has been put out, or `pty_reader` is waiting for the lock
  with it. -/
  complete : t.output ++ t.held = produced
  /-- When `pty_reader` has had the lock, all of it has been put out and been sent to every slot. -/
  settles : (rest.foldl step t).output = produced ∧ ∀ slot, (rest.foldl step t).pending slot = []
  /-- The history is the end of the output. -/
  history : t.history = t.output.drop (t.output.length - historyMax)
  /-- A connection in a slot whose writes have succeeded has been shown the end of what was put out
  before it got the slot and everything since, but for a chunk that is on its way to the slot. -/
  stream : ∀ (slot k : Nat) (client : Client), t.streams[slot]? = some (some k) →
    t.clients[k]? = some client → client.ok = true →
    client.before ≤ t.output.length ∧
    shown client.received ++ t.pending slot =
      (t.output.take client.before).drop (client.before - historyMax) ++ t.output.drop client.before
  /-- The same holds of a connection that was closed because the shell had ended; it has been shown
  the notice after that. -/
  ended : ∀ (k : Nat) (client : Client), t.clients[k]? = some client → client.stage = .closed →
    client.ok = true →
    shown client.received = (t.output.take client.before).drop (client.before - historyMax) ++
      t.output.drop client.before ++ closedNotice

/-- The end of what there was and everything since are together the end of the whole. -/
theorem since_eq (t : Terminal) (before : Nat) : t.since before =
    (t.output.take before).drop (before - historyMax) ++ t.output.drop before := by
  rw [since]
  rcases Nat.le_total before t.output.length with hle | hle
  · have hlength : before - historyMax ≤ (t.output.take before).length := by
      rw [length_take]
      omega
    rw [← drop_append_of_le_length hlength, take_append_drop]
  · rw [take_of_length_le hle, drop_of_length_le hle, append_nil]

theorem serveSlot_output (slot : Nat) (bytes : Bytes) (last : Bool) (fate : Option Nat) :
    (t.serveSlot slot bytes last fate).output = t.output := by
  rw [serveSlot]
  split
  · split <;> rfl
  · rfl
  · rfl

/-- **A chunk stays with `pty_reader` until it is put out.** -/
theorem output_step (t : Terminal) (action : TerminalAction) :
    (t.step action).output ++ (t.step action).held = t.output ++ t.held ++ t.shellRead action := by
  cases action with
  | read chunk =>
    cases chunk with
    | none => cases hreader : t.reader <;> simp [step, read, shellRead, held, hreader]
    | some chunk =>
      cases hreader : t.reader with
      | reading =>
        simp only [step, read, shellRead, hreader]
        split <;> simp [held, hreader]
      | waiting | sending | ending | closing | ended => simp [step, read, shellRead, held, hreader]
  | lock => cases hreader : t.reader <;> simp [step, lock, shellRead, held, hreader]
  | send fate =>
    cases hreader : t.reader with
    | sending | closing =>
      simp only [step, send, shellRead, hreader]
      split <;> simp [held, hreader, serveSlot_output]
    | reading | waiting | ending | ended => simp [step, send, shellRead, held, hreader]
  | connect fate => simp [step, connect, shellRead, held]
  | join k fate =>
    have hjoin : (t.join k fate).output = t.output ∧ (t.join k fate).reader = t.reader := by
      rw [join]
      split
      · exact ⟨rfl, rfl⟩
      split
      · exact ⟨rfl, rfl⟩
      dsimp only
      split <;> exact ⟨rfl, rfl⟩
    simp [step, shellRead, held, hjoin]

/-- The run lemma of `output_step`. -/
theorem output_run (t : Terminal) (actions : List TerminalAction) :
    (actions.foldl step t).output ++ (actions.foldl step t).held =
      t.output ++ t.held ++ t.produced actions := by
  induction actions generalizing t with
  | nil => rw [foldl_nil, produced, append_nil]
  | cons action actions ih =>
    rw [foldl_cons, ih, output_step, produced, append_assoc _ (t.shellRead action)]

/-- How many steps `pty_reader` has before it under the lock. -/
def left (t : Terminal) : Nat :=
  match t.reader with
  | .sending _ slot => sseMax - slot + 1
  | .closing slot => sseMax - slot + 1
  | _ => 0

theorem send_output (t : Terminal) (fate : Option Nat) :
    (t.send fate).output = t.output ∧ (t.send fate).left = t.left - 1 := by
  cases hreader : t.reader with
  | sending chunk slot | closing slot =>
    simp only [send, left, hreader]
    split
    · exact ⟨serveSlot_output .., by dsimp only; omega⟩
    · exact ⟨rfl, by dsimp only; omega⟩
  | reading | waiting | ending | ended => simp [send, left, hreader]

theorem sends_output (t : Terminal) (n : Nat) :
    ((replicate n (.send none)).foldl step t).output = t.output ∧
      ((replicate n (.send none)).foldl step t).left = t.left - n := by
  induction n generalizing t with
  | zero => exact ⟨rfl, rfl⟩
  | succ n ih =>
    obtain ⟨houtput, hleft⟩ := t.send_output none
    rw [replicate_succ, foldl_cons, step, (ih _).1, (ih _).2, houtput, hleft]
    exact ⟨rfl, by omega⟩

theorem output_rest (t : Terminal) : (rest.foldl step t).output = t.output ++ t.held ∧
    ∀ slot, (rest.foldl step t).pending slot = [] := by
  obtain ⟨houtput, hleft⟩ := (t.step .lock).sends_output (sseMax + 1)
  rw [rest, foldl_cons, houtput]
  refine ⟨?_, fun slot ↦ ?_⟩
  · cases hreader : t.reader <;> simp [step, lock, held, hreader]
  · have hbound : (t.step .lock).left ≤ sseMax + 1 := by
      rw [left]
      split <;> omega
    rw [pending]
    split
    · rename_i hreader
      rw [left, hreader] at hleft
      dsimp only at hleft
      omega
    · rfl

theorem Inv.consistent (h : t.Inv) : t.Consistent (t.output ++ t.held) where
  complete := rfl
  settles := t.output_rest
  history := h.history
  stream := by
    intro slot k client hslot hclient hok
    obtain ⟨-, hbefore, htext⟩ := h.served hslot hclient
    obtain ⟨text, hfollows, hall⟩ := htext hok
    exact ⟨hbefore, by rw [hfollows.shown, hall, since_eq]⟩
  ended := by
    intro k client hclient hstage hok
    have hfine := h.client k client hclient
    rw [Fine, hstage] at hfine
    rw [(hfine hok).2.shown, since_eq]

end Terminal

/-- **The streams are consistent in every interleaving.**  Whatever has happened, everything that
was read from the shell has been put out, but for a chunk that is waiting for the lock.  `history`
holds the last 256 KiB of what has been put out, and a connection in a slot whose writes have
succeeded has been shown the end of what had been put out when it got the slot, up to 256 KiB, and
then everything since, each byte once and in order.  Only the chunk that `pty_reader` is sending at
the moment is missing if it has not come to the slot yet. -/
theorem terminal_streams (actions : List TerminalAction) :
    (actions.foldl Terminal.step {}).Consistent (Terminal.produced {} actions) := by
  have hkeep (t : Terminal) (action : TerminalAction) (h : t.Inv) : (t.step action).Inv :=
    Terminal.inv_step h action
  have hinv : (actions.foldl Terminal.step {}).Inv :=
    Trace.always_foldl (Trace.always_of_inv hkeep (fun _ h ↦ h) Terminal.inv_init actions)
  have hproduced : (actions.foldl Terminal.step {}).output ++
      (actions.foldl Terminal.step {}).held = Terminal.produced {} actions :=
    Terminal.output_run {} actions
  exact hproduced ▸ hinv.consistent

/-- A chunk that was read before a connection got its stream, and is sent after that. -/
example :
    let actions : List TerminalAction :=
      [.connect none, .read (some [104, 105]), .join 0 none, .lock, .send none]
    (actions.foldl Terminal.step {}).clients.map (fun client ↦ shown client.received) =
      [[104, 105]] := by decide +kernel

end Noobia.Wisp
