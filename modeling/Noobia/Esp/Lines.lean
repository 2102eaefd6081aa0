import Noobia.Esp.Transport

/-!
# What the line transports hand over

A transport is sent a stream of bytes, in whatever pieces, and is asked for a line whenever the main
loop comes round to it.  Neither the pieces nor the times matter (`LineTransport.frames_ahead`):
what is handed over is a part of what the transport makes of the stream, and with enough calls it is
all of it.

So the question is what each transport makes of a line.  Over TCP it is the line, if it is not too
long, and nothing otherwise (`TcpServerTransport.feed_eq`).  The serial transport starts again after
every `maximumLine + 1` bytes, and what it hands over is what is left of the line in the end
(`StreamTransport.feed_eq`).
-/

namespace Noobia

open List

open Framer (lines)

theorem lines_line {line : Bytes} (hline : ∀ b ∈ line, isBreak b = false) :
    lines isBreak (line ++ [10]) = [line] := by
  rw [Framer.lines_append_cons hline (by decide : isBreak 10 = true),
    Framer.lines_of_no_break (by simp)]

/-! ## Pieces and calls -/

/-- What happens to a transport. -/
inductive TransportEvent
  | arrive (bytes : Bytes)
  | receive
  | send (message : String)
  deriving DecidableEq

namespace LineTransport

/-- One event. -/
def happen (t : LineTransport) : TransportEvent → LineTransport
  | .arrive bytes => t.arrive bytes
  | .receive => t.receive.2
  | .send message => t.send message

/-- The frames that are handed over. -/
def frames : LineTransport → List TransportEvent → List Bytes
  | _, [] => []
  | t, e :: events =>
    (if e = .receive then t.receive.1.toList else []) ++ frames (t.happen e) events

/-- The bytes that come in. -/
def incoming : List TransportEvent → Bytes
  | [] => []
  | .arrive bytes :: events => bytes ++ incoming events
  | .receive :: events => incoming events
  | .send _ :: events => incoming events

variable {t : LineTransport}

theorem attached_happen (h : t.Attached) (e : TransportEvent) : (t.happen e).Attached := by
  cases e with
  | arrive bytes => exact attached_arrive h bytes
  | receive => exact attached_receive h
  | send message => exact attached_send h message

/-- **Neither pieces nor calls matter.** -/
theorem frames_ahead (h : t.Attached) (events : List TransportEvent) (more : Bytes) :
    t.ahead (incoming events ++ more) = t.frames events ++ (events.foldl happen t).ahead more := by
  induction events generalizing t with
  | nil => rfl
  | cons e events ih =>
    have ih := ih (attached_happen h e)
    rw [frames, foldl_cons, append_assoc, ← ih]
    cases e with
    | arrive bytes =>
      rw [incoming, append_assoc, happen, ahead_arrive h]
      simp
    | receive =>
      rw [incoming, ahead_receive h, happen]
      simp
    | send message =>
      rw [incoming, happen, ahead_send]
      simp

theorem frames_append (t : LineTransport) (events events' : List TransportEvent) :
    t.frames (events ++ events') = t.frames events ++ (events.foldl happen t).frames events' := by
  induction events generalizing t with
  | nil => rfl
  | cons e events ih => simp [frames, ih]

theorem length_unread_le (h : t.Attached) (events : List TransportEvent) :
    (events.foldl happen t).unread.length ≤ t.unread.length + (incoming events).length := by
  induction events generalizing t with
  | nil => exact Nat.le_refl _
  | cons e events ih =>
    have ih := ih (attached_happen h e)
    rw [foldl_cons]
    cases e with
    | arrive bytes =>
      have := length_unread_arrive h bytes
      rw [happen] at ih ⊢
      rw [incoming, length_append]
      omega
    | receive =>
      have := length_unread_receive h
      rw [happen] at ih ⊢
      rw [incoming]
      omega
    | send message =>
      rw [happen, unread_send] at ih
      rw [incoming]
      exact ih

theorem frames_receive (h : t.Attached) {calls : Nat} (hcalls : t.unread.length ≤ calls) :
    t.frames (List.replicate calls .receive) = t.ahead [] := by
  induction calls generalizing t with
  | zero =>
    rw [ahead_of_unread (length_eq_zero_iff.mp (Nat.le_zero.mp hcalls))]
    rfl
  | succ calls ih =>
    have hunread := length_unread_receive h
    rw [replicate_succ, frames, happen, ih (attached_receive h) (by omega), if_pos rfl,
      ← ahead_receive h]

/-- **What is handed over** is a part of what is ahead, and in the end all of it. -/
theorem frames_spec (h : t.Attached) (events : List TransportEvent) :
    t.frames events <+: t.ahead (incoming events) ∧
      ∀ calls, t.unread.length + (incoming events).length ≤ calls →
        t.frames (events ++ List.replicate calls .receive) = t.ahead (incoming events) := by
  have hahead := frames_ahead h events []
  rw [append_nil] at hahead
  refine ⟨⟨_, hahead.symm⟩, fun calls hcalls ↦ ?_⟩
  have hattached : (events.foldl happen t).Attached := by
    clear hahead hcalls
    induction events generalizing t with
    | nil => exact h
    | cons e events ih => exact ih (attached_happen h e)
  have hunread := length_unread_le h events
  rw [frames_append, frames_receive hattached (by omega), ← hahead]

end LineTransport

/-! ## Over TCP -/

variable {b : UInt8}

namespace TcpServerTransport

/-- What has been kept of a line. -/
def kept (maximumLine : Nat) (line : Bytes) : Reading :=
  if line.length ≤ maximumLine then ⟨line, false⟩ else ⟨[], true⟩

theorem step_kept {maximumLine : Nat} (line : Bytes) (hb : isBreak b = false) :
    (framer maximumLine).step (kept maximumLine line) b =
      (kept maximumLine (line ++ [b]), none) := by
  rcases Nat.lt_trichotomy line.length maximumLine with hlength | hlength | hlength
  · simp [framer, kept, hb, hlength, Nat.le_of_lt hlength, Nat.succ_le_of_lt hlength]
  · simp [framer, kept, hb, hlength]
  have hle : ¬ line.length ≤ maximumLine := Nat.not_le_of_lt hlength
  have hle' : ¬ line.length + 1 ≤ maximumLine := by omega
  simp [framer, kept, hb, hle, hle']

theorem step_break {maximumLine : Nat} (line : Bytes) (hb : isBreak b = true) :
    (framer maximumLine).step (kept maximumLine line) b =
      (kept maximumLine [],
        if line ≠ [] ∧ line.length ≤ maximumLine then some line else none) := by
  by_cases hlength : line.length ≤ maximumLine
  · cases line with
    | nil => simp [framer, kept, hb]
    | cons c line =>
      rw [length_cons] at hlength
      simp [framer, kept, hb, hlength]
  · simp [framer, kept, hb, hlength]

/-- **A line is handed over as it is or not at all.** -/
theorem feed_eq (maximumLine : Nat) (bytes : Bytes) :
    ((framer maximumLine).feed {} bytes).2 = (lines isBreak bytes).filter fun line ↦
      line ≠ [] ∧ line.length ≤ maximumLine := by
  have hkept : kept maximumLine [] = {} := by simp [kept]
  have h := (framer maximumLine).feed_lines (fun line b ↦ step_kept line)
    (fun line b ↦ step_break line) bytes
  rw [hkept] at h
  rw [h, ← filterMap_eq_filter]
  congr 1
  funext line
  simp [Option.guard]

end TcpServerTransport

/-- **TCP framing.**  Somebody connects; whoever was there before makes no difference.  Whatever the
pieces in which a stream of bytes comes in and whenever `receive` is called, what it returns are the
lines of the stream in their order, except those that are empty or too long: always the first of
them, and in the end, when it has been called often enough to read everything, all of them. -/
theorem tcp_frames {t : TcpServerTransport} (ht : t.waiting = []) (events : List TransportEvent) :
    (LineTransport.tcp t.connect).frames events <+:
        (lines isBreak (LineTransport.incoming events)).filter (fun line ↦
          line ≠ [] ∧ line.length ≤ t.maximumLine) ∧
      ∀ calls, (LineTransport.incoming events).length ≤ calls →
        (LineTransport.tcp t.connect).frames (events ++ List.replicate calls .receive) =
          (lines isBreak (LineTransport.incoming events)).filter fun line ↦
            line ≠ [] ∧ line.length ≤ t.maximumLine := by
  have hwaiting : t.connect.waiting = [{ connected := true }] := by
    rw [TcpServerTransport.connect, ht]
    rfl
  have hattached : (LineTransport.tcp t.connect).Attached := .inr ⟨_, hwaiting, rfl⟩
  have hunread : (LineTransport.tcp t.connect).unread = [] := by
    rw [LineTransport.unread, TcpServerTransport.attend_of_waiting hwaiting]
  have hahead (bytes : Bytes) : (LineTransport.tcp t.connect).ahead bytes =
      (lines isBreak bytes).filter fun line ↦ line ≠ [] ∧ line.length ≤ t.maximumLine := by
    rw [LineTransport.ahead, TcpServerTransport.attend_of_waiting hwaiting]
    exact TcpServerTransport.feed_eq t.maximumLine bytes
  obtain ⟨hfirst, hall⟩ := LineTransport.frames_spec hattached events
  rw [hahead] at hfirst hall
  rw [hunread, length_nil, Nat.zero_add] at hall
  exact ⟨hfirst, hall⟩

/-- With room for three bytes in a line, of `ab\r\nabcdef\ncd\ne` in two pieces. -/
theorem tcp_frames_two_pieces :
    (LineTransport.tcp (TcpServerTransport.connect { maximumLine := 3 })).frames
        ([.arrive (Bytes.ofAscii "ab\r\nabcd"), .receive, .receive,
          .arrive (Bytes.ofAscii "ef\ncd\ne")] ++ List.replicate 15 .receive) =
      [Bytes.ofAscii "ab", Bytes.ofAscii "cd"] :=
  ((tcp_frames rfl [.arrive (Bytes.ofAscii "ab\r\nabcd"), .receive, .receive,
    .arrive (Bytes.ofAscii "ef\ncd\ne")]).2 15 (by decide)).trans (by decide)

/-! ## Over a serial line -/

namespace StreamTransport

/-- What has been kept of a line. -/
def kept (maximumLine : Nat) (line : Bytes) : Bytes :=
  line.drop ((maximumLine + 1) * (line.length / (maximumLine + 1)))

variable {maximumLine : Nat}

theorem length_kept (line : Bytes) :
    (kept maximumLine line).length = line.length % (maximumLine + 1) := by
  rw [kept, length_drop, Nat.mod_eq_sub]

theorem kept_of_le {line : Bytes} (h : line.length ≤ maximumLine) :
    kept maximumLine line = line := by
  rw [kept, Nat.div_eq_of_lt (Nat.lt_succ_of_le h), Nat.mul_zero, drop_zero]

theorem step_kept (line : Bytes) (hb : isBreak b = false) :
    (framer maximumLine).step (kept maximumLine line) b =
      (kept maximumLine (line ++ [b]), none) := by
  have hlength : (kept maximumLine line).length = _ := length_kept line
  have hmod := Nat.mod_lt line.length (by omega : maximumLine + 1 > 0)
  have hdiv := Nat.div_add_mod' line.length (maximumLine + 1)
  by_cases hroom : line.length % (maximumLine + 1) < maximumLine
  · have hsame : (line.length + 1) / (maximumLine + 1) = line.length / (maximumLine + 1) :=
      Nat.div_eq_of_lt_le (by omega) (by rw [Nat.succ_mul]; omega)
    have hkept : kept maximumLine (line ++ [b]) = kept maximumLine line ++ [b] := by
      rw [kept, length_append, length_singleton, hsame,
        drop_append_of_le_length (by rw [Nat.mul_comm]; omega), kept]
    simp [framer, hb, hlength, hroom, hkept]
  · have hnext : (line.length + 1) / (maximumLine + 1) = line.length / (maximumLine + 1) + 1 :=
      Nat.div_eq_of_lt_le (by rw [Nat.succ_mul]; omega) (by rw [Nat.succ_mul, Nat.succ_mul]; omega)
    have hkept : kept maximumLine (line ++ [b]) = [] := by
      rw [kept, drop_eq_nil_iff, length_append, length_singleton, hnext,
        Nat.mul_comm, Nat.succ_mul]
      omega
    simp [framer, hb, hlength, hroom, hkept]

theorem step_break (line : Bytes) (hb : isBreak b = true) :
    (framer maximumLine).step (kept maximumLine line) b =
      (kept maximumLine [],
        if kept maximumLine line ≠ [] then some (kept maximumLine line) else none) := by
  have hnil : kept maximumLine [] = [] := drop_nil
  by_cases h : kept maximumLine line = []
  · simp [framer, hb, h, hnil]
  · simp [framer, hb, h, hnil]

/-- **What is left of a line is handed over.** -/
theorem feed_eq (maximumLine : Nat) (bytes : Bytes) :
    ((framer maximumLine).feed [] bytes).2 =
      ((lines isBreak bytes).map (kept maximumLine)).filter (· ≠ []) := by
  have hnil : kept maximumLine [] = [] := drop_nil
  have h := (framer maximumLine).feed_lines (fun line b ↦ step_kept line)
    (fun line b ↦ step_break line) bytes
  rw [hnil] at h
  rw [h, ← filterMap_eq_filter, filterMap_map]
  congr 1
  funext line
  simp [Option.guard]

theorem kept_eq_iff (line : Bytes) : kept maximumLine line = line ↔ line.length ≤ maximumLine := by
  refine ⟨fun h ↦ ?_, kept_of_le⟩
  have hlength : (kept maximumLine line).length = _ := length_kept line
  have hmod := Nat.mod_lt line.length (by omega : maximumLine + 1 > 0)
  rw [h] at hlength
  omega

theorem kept_eq_nil_iff (line : Bytes) :
    kept maximumLine line = [] ↔ maximumLine + 1 ∣ line.length := by
  rw [← length_eq_zero_iff, length_kept, Nat.dvd_iff_mod_eq_zero]

/-- What is handed over are lines of the stream if and only if nothing is left of the lines that are
cut. -/
theorem sublist_iff (stream : List Bytes) :
    ((stream.map (kept maximumLine)).filter (· ≠ [])).Sublist stream ↔
      ∀ line ∈ stream, kept maximumLine line = line ∨ kept maximumLine line = [] := by
  constructor
  · intro hsublist line hline
    by_contra hcut
    obtain ⟨hne, hnonempty⟩ := not_or.mp hcut
    -- A line that is what is left is handed over as often as it is there, and once more.
    have hshort : kept maximumLine (kept maximumLine line) = kept maximumLine line := by
      have hmod := Nat.mod_lt line.length (by omega : maximumLine + 1 > 0)
      rw [kept_eq_iff, length_kept]
      omega
    have hcount (stream : List Bytes) : stream.count (kept maximumLine line) ≤
        ((stream.map (kept maximumLine)).filter (· ≠ [])).count (kept maximumLine line) := by
      induction stream with
      | nil => exact Nat.le_refl _
      | cons other stream ih =>
        by_cases hother : other = kept maximumLine line
        · rw [map_cons, hother, hshort, filter_cons_of_pos (by simpa using hnonempty),
            count_cons_self, count_cons_self]
          omega
        · rw [count_cons_of_ne hother, map_cons]
          exact Nat.le_trans ih (((sublist_cons_self _ _).filter _).count_le _)
    obtain ⟨before, after, rfl⟩ := append_of_mem hline
    have hle := hsublist.count_le (kept maximumLine line)
    have hbefore := hcount before
    have hafter := hcount after
    rw [map_append, map_cons, filter_append,
      filter_cons_of_pos (by simpa using hnonempty), count_append, count_append,
      count_cons_self, count_cons_of_ne (Ne.symm hne)] at hle
    omega
  · intro h
    induction stream with
    | nil => exact List.Sublist.refl _
    | cons line stream ih =>
      obtain ⟨hline, hstream⟩ := forall_mem_cons.mp h
      rw [map_cons]
      rcases hline with hline | hline
      · rw [hline, filter_cons]
        split
        · exact (ih hstream).cons_cons _
        · exact (ih hstream).cons _
      · rw [filter_cons_of_neg (by simp [hline])]
        exact (ih hstream).cons _

end StreamTransport

/-- **What comes over a serial line.**  The frames are complete lines of the stream, each line at
most once and in their order, whatever the pieces in which the stream comes in and whenever
`receive` is called, if and only if there is nothing left of its lines that are too long: if their
length is a multiple of `maximumLine + 1`. -/
theorem stream_frames_iff (maximumLine : Nat) (bytes : Bytes) :
    (∀ events, LineTransport.incoming events = bytes →
        ((LineTransport.stream { maximumLine }).frames events).Sublist (lines isBreak bytes)) ↔
      ∀ line ∈ lines isBreak bytes, maximumLine < line.length →
        maximumLine + 1 ∣ line.length := by
  have hahead : (LineTransport.stream { maximumLine }).ahead bytes =
      ((lines isBreak bytes).map (StreamTransport.kept maximumLine)).filter (· ≠ []) :=
    StreamTransport.feed_eq maximumLine bytes
  have hspec := LineTransport.frames_spec (t := .stream { maximumLine }) trivial
  have hcondition : (∀ line ∈ lines isBreak bytes, maximumLine < line.length →
      maximumLine + 1 ∣ line.length) ↔ ∀ line ∈ lines isBreak bytes,
        StreamTransport.kept maximumLine line = line ∨
          StreamTransport.kept maximumLine line = [] := by
    refine forall₂_congr fun line _ ↦ ?_
    rw [StreamTransport.kept_eq_iff, StreamTransport.kept_eq_nil_iff, ← Nat.not_le,
      Classical.or_iff_not_imp_left]
  rw [hcondition, ← StreamTransport.sublist_iff, ← hahead]
  constructor
  · intro h
    obtain ⟨-, hall⟩ := hspec [.arrive bytes]
    have hincoming : LineTransport.incoming [.arrive bytes] = bytes := append_nil bytes
    rw [hincoming] at hall
    have hframes := h ([.arrive bytes] ++ List.replicate bytes.length .receive) (by
      have hreceive (n : Nat) : LineTransport.incoming (List.replicate n .receive) = [] := by
        induction n with
        | zero => rfl
        | succ n ih => exact ih
      rw [singleton_append, LineTransport.incoming, hreceive, append_nil])
    rwa [hall bytes.length (by simp [LineTransport.unread])] at hframes
  · rintro h events rfl
    exact (hspec events).1.sublist.trans h

/-- **The tail of a line is carried out.**  After 2049 bytes of anything, the rest of the line is
handed over, though it is not a line of the stream. -/
theorem stream_delivers_tail :
    (LineTransport.stream {}).frames
        [.arrive (List.replicate 2049 120 ++ Bytes.ofAscii "NRP/1 1 RESET_VM\n"), .receive] =
      [Bytes.ofAscii "NRP/1 1 RESET_VM"] ∧
    Bytes.ofAscii "NRP/1 1 RESET_VM" ∉
      lines isBreak (List.replicate 2049 120 ++ Bytes.ofAscii "NRP/1 1 RESET_VM\n") := by
  decide +kernel

end Noobia
