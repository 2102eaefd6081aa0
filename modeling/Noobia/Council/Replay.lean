import Noobia.Council.Reading
import Noobia.Council.Wire

/-!
# Following the transcript

A live client follows the transcript by polling: it asks for the events from a position on, gets
them and the position after the last one, and asks from there the next time.  What it has been sent
in the end should be the records of the transcript, all of them, once each and in order.

Nothing is lost or repeated that way.  But a record whose line does not fit the buffer of `fgets`
comes in pieces, each as an event of its own, and of a record with a carriage return in it only the
beginning comes.  `replay_exact_iff` says that there is nothing else to it.
-/

namespace Noobia.Council

open List Bytes

open Routine

/-! ## Cursors -/

variable {n : Nat}

theorem strtol_decimal (hn : n < 2 ^ 63) : CString.strtol (decimal n) = n := by
  have h : CString.strtoSigned (2 ^ 63) (Bytes.ofNat n ++ []) = (↑n, [], false) :=
    CString.strtoSigned_ofNat hn rfl
  rw [append_nil] at h
  exact congrArg Prod.fst h

theorem parse_events (hn : n < 2 ^ 63) :
    Command.parse (CString.text (ofAscii "EVENTS " ++ decimal n)) = .events n := by
  have htext : CString.text (ofAscii "EVENTS " ++ decimal n) =
      ofAscii "EVENTS " ++ decimal n := by
    refine CString.text_of_not_mem fun hb ↦ ?_
    rcases mem_append.mp hb with hb | hb
    · exact absurd hb (by decide)
    · exact absurd (mem_decimal hb) (by decide)
  have hword : ofAscii "EVENTS " = [69, 86, 69, 78, 84, 83, 32] := by decide
  rw [htext, ← strtol_decimal hn, hword]
  simp [Command.parse, starts, ofAscii, List.isPrefixOf]

/-! ## A poll -/

section

variable {cfg : Config} {c : Connection cfg}

/-- Between two states nothing has been done to the logs, and these lines have been sent. -/
structure Sends (c : Connection cfg) (lines : List Bytes) (s t : Hub cfg) : Prop where
  records : t.records = s.records
  history : t.history = s.history ++ lines.map (.sent c)

theorem Sends.trans {lines lines' : List Bytes} {s t u : Hub cfg} (hst : Sends c lines s t)
    (htu : Sends c lines' t u) : Sends c (lines ++ lines') s u where
  records := htu.records.trans hst.records
  history := by rw [htu.history, hst.history, map_append, append_assoc]

variable {T : Env → Hub cfg → Hub cfg → Prop}

theorem send_alone (line : Bytes) (s : Hub cfg) :
    (send c line).Alone T s fun _ ↦ Sends c [line] s :=
  alone_change fun _ _ ↦ ⟨rfl, rfl⟩

theorem sendLines_alone (word : String) (lines : List Bytes) (s : Hub cfg) :
    (sendLines c word lines).Alone (fun i _ _ ↦ i.works) s fun ok t ↦
      ok = true ∧ Sends c (lines.map (ofAscii word ++ · ++ [10])) s t := by
  induction lines generalizing s with
  | nil => exact alone_pure ⟨rfl, rfl, (append_nil _).symm⟩
  | cons line lines ih =>
    refine alone_bind (R := fun ok t ↦ ok = true ∧ Sends c [ofAscii word ++ line ++ [10]] s t)
      (alone_atomic fun i hi ↦ ?_) ?_
    · dsimp only
      rw [if_pos hi.1]
      exact ⟨hi.1, rfl, rfl⟩
    · rintro ok t ⟨rfl, hst⟩
      rw [if_pos rfl]
      exact (ih t).mono fun ok u ⟨hok, htu⟩ ↦ ⟨hok, hst.trans htu⟩

/-- A line that is not an event. -/
def isTrailer (line : Bytes) : Prop := starts "EVENT " line = false

/-- The line with the cursor. -/
def cursorLine (next : Nat) : Bytes := Bytes.ofAscii "CURSOR " ++ decimal next ++ [10]

theorem sendCursor_alone (next : Nat) (s : Hub cfg) :
    (sendCursor c next).Alone T s fun _ t ↦
      ∃ rest, (∀ line ∈ rest, isTrailer line) ∧ Sends c (cursorLine next :: rest) s t := by
  refine alone_bind (R := fun _ t ↦ t = s) (alone_look rfl) ?_
  rintro ⟨speaker, closure⟩ _ rfl
  refine alone_bind (send_alone _ _) fun _ t h₁ ↦ alone_bind (send_alone _ _) fun _ u h₂ ↦ ?_
  refine alone_bind (send_alone _ _) fun _ v h₃ ↦ (send_alone _ _).mono fun _ w h₄ ↦ ?_
  refine ⟨[_, _, _], ?_, h₁.trans (h₂.trans (h₃.trans h₄))⟩
  simp only [forall_mem_cons, not_mem_nil, IsEmpty.forall_iff, implies_true, and_true]
  refine ⟨?_, ?_, (by decide : starts "EVENT " (ofAscii "END\n") = false)⟩
  · simp [isTrailer, starts, ofAscii, List.isPrefixOf]
  · rw [isTrailer]
    split <;> simp [starts, ofAscii, List.isPrefixOf]

/-- The reply to `EVENTS`. -/
theorem sendEvents_alone (hhub : cfg.isHub = true) (offset : Int) (s : Hub cfg) :
    (sendEvents c offset).Alone (fun i _ _ ↦ i.works) s fun _ t ↦ ∃ rest,
    (∀ line ∈ rest, isTrailer line) ∧
      Sends c ((streamSince s.transcript offset).1.map (ofAscii "EVENT " ++ · ++ [10]) ++
        cursorLine (streamSince s.transcript offset).2 :: rest) s t := by
  rw [sendEvents, if_pos hhub]
  refine alone_bind (R := fun read t ↦ read = streamSince s.transcript offset ∧ t = s)
    (alone_atomic fun i hi ↦ ?_) ?_
  · dsimp only
    rw [if_pos hi.2]
    exact ⟨rfl, rfl⟩
  rintro read _ ⟨rfl, rfl⟩
  refine alone_bind (sendLines_alone _ _ _) ?_
  rintro ok t ⟨rfl, hst⟩
  rw [if_pos rfl]
  exact (sendCursor_alone _ t).mono fun _ u ⟨rest, hrest, htu⟩ ↦ ⟨rest, hrest, hst.trans htu⟩

/-- The lines sent to the caller between two states. -/
def replies (c : Connection cfg) (s t : Hub cfg) : List Bytes :=
  (t.history.drop s.history.length).filterMap fun e ↦
    match e with
    | .sent c' line => if c' = c then some line else none
    | _ => none

/-- The payload of an event. -/
def eventPayload (line : Bytes) : Option Bytes :=
  if starts "EVENT " line then some (line.drop 6).dropLast else none

/-- The cursor among the lines of a reply. -/
def cursorOf (lines : List Bytes) : Option Bytes :=
  lines.findSome? fun line ↦ if starts "CURSOR " line then some (line.drop 7).dropLast else none

theorem eventPayload_event (line : Bytes) :
    eventPayload (ofAscii "EVENT " ++ line ++ [10]) = some line := by
  have hword : ofAscii "EVENT " = [69, 86, 69, 78, 84, 32] := by decide
  rw [eventPayload, starts, hword, if_pos (by simp [List.isPrefixOf])]
  simp

theorem reply_read (events : List Bytes) (next : Nat) {rest : List Bytes}
    (hrest : ∀ line ∈ rest, isTrailer line) :
    let lines := events.map (ofAscii "EVENT " ++ · ++ [10]) ++ cursorLine next :: rest
    lines.filterMap eventPayload = events ∧ cursorOf lines = some (decimal next) := by
  have htrailer : rest.filterMap eventPayload = [] :=
    filterMap_eq_nil_iff.mpr
      fun line hline ↦ if_neg (by simp [isTrailer] at hrest; simp [hrest line hline])
  have hcursor : starts "CURSOR " (cursorLine next) = true := by
    simp [cursorLine, starts, ofAscii, List.isPrefixOf]
  have hnot : eventPayload (cursorLine next) = none := by
    simp [eventPayload, cursorLine, starts, ofAscii, List.isPrefixOf]
  constructor
  · rw [filterMap_append, filterMap_cons_none hnot, htrailer, append_nil,
      filterMap_map]
    simp only [Function.comp_def, eventPayload_event, filterMap_some]
  · rw [cursorOf, findSome?_append, findSome?_eq_none_iff.mpr, Option.none_or,
      findSome?_cons, if_pos hcursor]
    · simp [cursorLine, ofAscii]
    intro line hline
    obtain ⟨event, -, rfl⟩ := mem_map.mp hline
    simp [starts, ofAscii, List.isPrefixOf]

theorem poll_alone (hhub : cfg.isHub = true) (hn : n < 2 ^ 63)
    (hline : c.line = some (ofAscii "EVENTS " ++ decimal n)) (s : Hub cfg) :
    (handleConnection c).Alone (fun i _ _ ↦ i.works) s fun _ t ↦ t.records = s.records ∧
      (replies c s t).filterMap eventPayload = (streamSince s.transcript n).1 ∧
      cursorOf (replies c s t) = some (decimal (streamSince s.transcript n).2) := by
  have hcommand : c.command = some (.events n) := by
    rw [Connection.command, hline, Option.map_some, parse_events hn]
  refine alone_bind (R := fun _ t ↦ t.records = s.records ∧ t.history = s.history)
    (alone_change fun _ _ ↦ ⟨rfl, rfl⟩) ?_
  rintro _ t ⟨hrecords, hhistory⟩
  rw [serveLine, hcommand]
  refine alone_bind (R := fun _ u ↦ u.records = s.records ∧ ∃ turn hasTurn rest,
    (∀ line ∈ rest, isTrailer line) ∧ u.history = s.history ++ .checked c turn hasTurn ::
      ((streamSince s.transcript n).1.map (ofAscii "EVENT " ++ · ++ [10]) ++
        cursorLine (streamSince s.transcript n).2 :: rest).map (.sent c)) ?_ ?_
  · refine alone_bind (R := fun _ u ↦ u.records = s.records ∧ ∃ turn hasTurn,
      u.history = s.history ++ [.checked c turn hasTurn]) (alone_atomic fun _ _ ↦ ⟨hrecords, t.turn,
        t.arbitration.canSpeak c.name, by rw [← hhistory]; rfl⟩) ?_
    rintro _ u ⟨hrecords, turn, hasTurn, hhistory⟩
    have htranscript : u.transcript = s.transcript := by
      rw [Hub.transcript, hrecords, Hub.transcript]
    refine (sendEvents_alone hhub n u).mono ?_
    rintro _ v ⟨rest, hrest, hv⟩
    rw [htranscript] at hv
    refine ⟨hv.records.trans hrecords, turn, hasTurn, rest, hrest, ?_⟩
    rw [hv.history, hhistory, append_assoc]
    rfl
  · rintro _ u ⟨hrecords, turn, hasTurn, rest, hrest, hhistory⟩
    refine alone_change fun _ _ ↦ ⟨hrecords, ?_⟩
    have hreplies : replies c s (u.note (.closed c)) =
        (streamSince s.transcript n).1.map (ofAscii "EVENT " ++ · ++ [10]) ++
          cursorLine (streamSince s.transcript n).2 :: rest := by
      rw [replies, Hub.note, hhistory, append_assoc, drop_left, cons_append,
        filterMap_cons_none rfl, filterMap_append, filterMap_map]
      simp
    rw [hreplies]
    exact reply_read _ _ hrest

end

/-! ## Following -/

/-- What happens while a client follows the transcript. -/
inductive Live
  | append (record : Record)
  | poll (socket : Nat)

/-- The records that are appended. -/
def Live.appended : List Live → List Record
  | [] => []
  | append r :: later => r :: Live.appended later
  | poll _ :: later => Live.appended later

/-- The client of `p` follows the transcript, from a cursor on, and has been sent these payloads in
the end.  Every poll begins where the one before it left off. -/
def Follows {cfg : Config} (p : cfg.Person) : List Live → Hub cfg → Bytes → List Bytes → Prop
  | [], _, _, payloads => payloads = []
  | .append r :: later, s, cursor, payloads =>
    ∃ c proposal, Follows p later (s.append c .transcript r proposal) cursor payloads
  | .poll socket :: later, s, cursor, payloads =>
    let c : Connection cfg := ⟨socket, p, some (Bytes.ofAscii "EVENTS " ++ cursor)⟩
    ∃ t next rest, (handleConnection c).Leads (fun i _ _ ↦ i.works) s () t ∧
      cursorOf (replies c s t) = some next ∧
      payloads = (replies c s t).filterMap eventPayload ++ rest ∧ Follows p later t next rest

/-- What the client is sent of a record. -/
def Record.payloads (r : Record) : List Bytes := r.pieces.map Stdio.chomp

/-- From the end of some records on there are those that follow. -/
theorem streamSince_logFile (seen : List Record) {pending : List Record}
    (hlines : ∀ r ∈ pending, r.OneLine) :
    streamSince (logFile (seen ++ pending)) (logFile seen).length =
      (pending.flatMap Record.payloads, (logFile (seen ++ pending)).length) := by
  have hstart : ¬ (((logFile seen).length : Int) < 0 ||
      ((logFile (seen ++ pending)).length : Int) < (logFile seen).length) = true := by
    rw [logFile_append, length_append]
    simp
  rw [streamSince, if_neg hstart, Int.toNat_natCast, logFile_append, drop_left,
    pieces_logFile hlines, map_flatMap]
  rfl

section

variable {cfg : Config} {p : cfg.Person} {s t : Hub cfg} {seen pending : List Record}

theorem poll_payloads (hhub : cfg.isHub = true)
    (hrecords : s.records .transcript = seen ++ pending) (hlines : ∀ r ∈ pending, r.OneLine)
    (hlong : (logFile seen).length < 2 ^ 63) {c : Connection cfg}
    (hline : c.line = some (ofAscii "EVENTS " ++ decimal (logFile seen).length))
    (ht : (handleConnection c).Leads (fun i _ _ ↦ i.works) s () t) :
    t.records .transcript = seen ++ pending ∧
      (replies c s t).filterMap eventPayload = pending.flatMap Record.payloads ∧
      cursorOf (replies c s t) = some (decimal (logFile (seen ++ pending)).length) := by
  obtain ⟨hsame, hpayloads, hcursor⟩ := poll_alone hhub hlong hline s () t ht
  rw [Hub.transcript, hrecords, streamSince_logFile seen hlines] at hpayloads hcursor
  rw [hsame]
  exact ⟨hrecords, hpayloads, hcursor⟩

/-- **What a client has been sent after its last poll are the pieces of the records, no more and no
less.** -/
theorem follows_payloads (hhub : cfg.isHub = true) {acts : List Live} {socket : Nat}
    {payloads : List Bytes} (hrecords : s.records .transcript = seen ++ pending)
    (hlines : ∀ r ∈ pending ++ Live.appended acts, r.OneLine)
    (hlong : (logFile (seen ++ (pending ++ Live.appended acts))).length < 2 ^ 63)
    (h : Follows p (acts ++ [.poll socket]) s (decimal (logFile seen).length) payloads) :
    payloads = (pending ++ Live.appended acts).flatMap Record.payloads := by
  -- what has been seen is in front of the cursor, and what is pending behind it
  induction acts generalizing s seen pending payloads with
  | nil =>
    rw [Live.appended, append_nil] at hlines hlong ⊢
    rw [logFile_append, length_append] at hlong
    obtain ⟨t, next, rest, ht, -, rfl, rfl⟩ := h
    obtain ⟨-, hpayloads, -⟩ := poll_payloads hhub hrecords hlines (by omega) rfl ht
    rw [hpayloads, append_nil]
  | cons act acts ih =>
    cases act with
    | append r =>
      obtain ⟨c, proposal, h⟩ := h
      have hlist : pending ++ [r] ++ Live.appended acts =
          pending ++ Live.appended (.append r :: acts) := by simp [Live.appended]
      rw [← hlist] at hlines hlong ⊢
      refine ih ?_ hlines hlong h
      simp [Hub.append, hrecords]
    | poll k =>
      obtain ⟨t, next, rest, ht, hnext, rfl, h⟩ := h
      have hseen : (logFile seen).length < 2 ^ 63 := by
        rw [logFile_append, length_append] at hlong
        omega
      obtain ⟨hsame, hpayloads, hcursor⟩ := poll_payloads hhub hrecords
        (fun r hr ↦ hlines r (mem_append_left _ hr)) hseen rfl ht
      obtain rfl := Option.some.inj (hnext.symm.trans hcursor)
      rw [Live.appended] at hlines hlong ⊢
      rw [hpayloads, flatMap_append]
      have hnone : t.records .transcript = seen ++ pending ++ [] := by rw [hsame, append_nil]
      refine congrArg (_ ++ ·) (ih hnone ?_ ?_ h)
      · exact fun r hr ↦ hlines r (mem_append_right _ hr)
      · rw [nil_append, append_assoc]
        exact hlong

theorem exists_poll (hhub : cfg.isHub = true) (p : cfg.Person) (socket : Nat) (hn : n < 2 ^ 63)
    (s : Hub cfg) :
    let c : Connection cfg := ⟨socket, p, some (ofAscii "EVENTS " ++ decimal n)⟩
    ∃ t, (handleConnection c).Leads (fun i _ _ ↦ i.works) s () t ∧ t.records = s.records ∧
      cursorOf (replies c s t) = some (decimal s.transcript.length) := by
  intro c
  have hleads : (handleConnection c).Leads (fun i _ _ ↦ i.works) s () _ :=
    leads_finish (throughout_of_forall (fun _ _ ↦ small.noon_works) _ _)
  obtain ⟨hsame, -, hcursor⟩ := poll_alone hhub hn rfl s () _ hleads
  exact ⟨_, hleads, hsame, hcursor⟩

theorem exists_follows (hhub : cfg.isHub = true) (p : cfg.Person) (acts : List Live) (socket : Nat)
    (hn : n < 2 ^ 63)
    (hlong : (logFile (s.records .transcript ++ Live.appended acts)).length < 2 ^ 63) :
    ∃ payloads, Follows p (acts ++ [.poll socket]) s (decimal n) payloads := by
  induction acts generalizing s n with
  | nil =>
    obtain ⟨t, ht, -, hcursor⟩ := exists_poll hhub p socket hn s
    exact ⟨_, t, _, [], ht, hcursor, rfl, rfl⟩
  | cons act acts ih =>
    cases act with
    | append r =>
      obtain ⟨payloads, h⟩ := ih (s := s.append ⟨socket, p, none⟩ .transcript r 0) hn
        (by simpa [Hub.append, Live.appended] using hlong)
      exact ⟨payloads, _, _, h⟩
    | poll k =>
      obtain ⟨t, ht, hsame, hcursor⟩ := exists_poll hhub p k hn s
      have hnext : s.transcript.length < 2 ^ 63 := by
        rw [logFile_append, length_append] at hlong
        exact Nat.lt_of_le_of_lt (Nat.le_add_right _ _) hlong
      obtain ⟨payloads, h⟩ := ih hnext (hsame ▸ hlong)
      exact ⟨_, t, _, payloads, ht, hcursor, rfl, h⟩

end

/-! ## The result -/

theorem length_le_payloads (records : List Record) :
    records.length ≤ (records.flatMap Record.payloads).length := by
  induction records with
  | nil => exact Nat.le_refl _
  | cons r records ih =>
    have hpos := length_pos_iff.mpr r.pieces_ne_nil
    rw [flatMap_cons, length_append, length_cons, Record.payloads, length_map]
    omega

/-- What is sent of the records is the records if none of them is too long and none has a carriage
return in it. -/
theorem payloads_eq_iff {records : List Record} (hlines : ∀ r ∈ records, r.OneLine) :
    records.flatMap Record.payloads = records.map Record.text ↔
      ∀ r ∈ records, r.Fits ∧ 13 ∉ r.text := by
  induction records with
  | nil => simp
  | cons r records ih =>
    obtain ⟨hline, hlines⟩ := forall_mem_cons.mp hlines
    have hone (hfits : r.Fits) : r.payloads = [Stdio.chomp (r.text ++ [10])] := by
      rw [Record.payloads, r.pieces_of_fits hline hfits, map_singleton]
    rw [flatMap_cons, map_cons, forall_mem_cons, ← ih hlines]
    constructor
    · intro h
      -- every other record is at least one event, so this one is no more than one
      have hfits : r.Fits := by
        by_contra hlong
        have htwo := r.two_le_length_pieces hline hlong
        have hrest := length_le_payloads records
        have hlength := congrArg List.length h
        rw [length_append, Record.payloads, length_map, length_cons,
          length_map] at hlength
        omega
      rw [hone hfits, singleton_append, List.cons.injEq] at h
      exact ⟨⟨hfits, (Stdio.chomp_append_newline hline.1 hline.2).mp h.1⟩, h.2⟩
    · rintro ⟨⟨hfits, hreturn⟩, h⟩
      rw [hone hfits, (Stdio.chomp_append_newline hline.1 hline.2).mpr hreturn, h]
      rfl

/-- **A client that follows the transcript is sent its records, all of them, once each, in order and
in one piece, if every line fits the buffer and none has a carriage return in it.** -/
theorem replay_exact_iff {cfg : Config} (hcfg : cfg.Loaded) (hhub : cfg.isHub = true)
    (p : cfg.Person) (acts : List Live) (socket : Nat) (s : Hub cfg) (payloads : List Bytes)
    (hwritten : ∀ r ∈ s.records .transcript ++ Live.appended acts, r.Written cfg)
    (hlong : (logFile (s.records .transcript ++ Live.appended acts)).length < 2 ^ 63)
    (h : Follows p (acts ++ [.poll socket]) s (Bytes.ofAscii "0") payloads) :
    payloads = (s.records .transcript ++ Live.appended acts).map Record.text ↔
      ∀ r ∈ s.records .transcript ++ Live.appended acts, r.Fits ∧ 13 ∉ r.text := by
  have hlines : ∀ r ∈ s.records .transcript ++ Live.appended acts, r.OneLine :=
    fun r hr ↦ (hwritten r hr).oneLine hcfg
  rw [follows_payloads hhub (nil_append _).symm hlines hlong h, payloads_eq_iff hlines]

namespace small

/-- What alice said at noon. -/
def said (message : Bytes) : Record := ⟨43200, (small.contact alice).name, .message, message⟩

/-- Bob drops by, and alice says something that takes as long as it can. -/
def longSpeech : List (Act (Call small) Env) :=
  [connects bob none, .spawn (alice, some (Bytes.ofAscii "SAY " ++ List.replicate 8186 97))] ++
    goesOn 0 4 ++ goesOn 1 20

end small

theorem small.said_written (message : Bytes) (hmessage : 0 ∉ message ∧ 10 ∉ message) :
    (small.said message).Written small :=
  ⟨.inr ⟨small.alice, rfl⟩, hmessage⟩

/-- Alice says two things, and bob polls in between. -/
def small.chat : List Live :=
  [.append (small.said (Bytes.ofAscii "hello")), .poll 0,
    .append (small.said (Bytes.ofAscii "hello again"))]

theorem replay_exact_hello :
    ∃ payloads, Follows small.bob (small.chat ++ [.poll 1]) small.start (Bytes.ofAscii "0")
        payloads ∧
      payloads = (Live.appended small.chat).map Record.text := by
  have hwritten : ∀ r ∈ small.start.records .transcript ++ Live.appended small.chat,
      r.Written small := by
    refine forall_mem_cons.mpr ⟨small.said_written _ (by decide), ?_⟩
    exact forall_mem_cons.mpr ⟨small.said_written _ (by decide), nofun⟩
  obtain ⟨payloads, h⟩ := exists_follows (n := 0) (s := small.start) rfl small.bob small.chat 1
    (by decide) (by decide +kernel)
  exact ⟨payloads, h, (replay_exact_iff small.loaded rfl small.bob small.chat 1 small.start payloads
    hwritten (by decide +kernel) h).mpr (by decide +kernel)⟩

/-- **A record of a message that was accepted comes in pieces.** -/
theorem long_record_split :
    ∃ payloads, Follows small.bob [.poll 2] (small.start.after small.longSpeech)
        (Bytes.ofAscii "0") payloads ∧
      payloads ≠ ((small.start.after small.longSpeech).records .transcript).map Record.text := by
  have hrecords : (((small.start.after small.longSpeech).records .transcript).all fun r ↦
      r.text.all fun b ↦ b ≠ 0 && b ≠ 10) = true ∧
      ((small.start.after small.longSpeech).records .transcript).map (fun r ↦ r.text.length) =
        [34, 8221] := by decide +kernel
  generalize small.start.after small.longSpeech = s at *
  obtain ⟨hbytes, hlengths⟩ := hrecords
  have hlines : ∀ r ∈ s.records .transcript ++ Live.appended [], r.OneLine := by
    intro r hr
    rw [Live.appended, append_nil] at hr
    have hr := all_eq_true.mp hbytes r hr
    simp only [ne_eq, all_eq_true, Bool.and_eq_true, decide_eq_true_eq] at hr
    exact ⟨fun h ↦ (hr 0 h).1 rfl, fun h ↦ (hr 10 h).2 rfl⟩
  have hlong : (logFile (s.records .transcript ++ Live.appended [])).length < 2 ^ 63 := by
    have hsum : (logFile (s.records .transcript)).length =
        (((s.records .transcript).map fun r ↦ r.text.length).map (· + 1)).sum := by
      rw [logFile, length_flatMap, map_map]
      simp [Function.comp_def]
    rw [Live.appended, append_nil, hsum, hlengths]
    decide
  obtain ⟨payloads, h⟩ := exists_follows (n := 0) rfl small.bob [] 2 (by decide) hlong
  refine ⟨payloads, h, fun heq ↦ ?_⟩
  rw [follows_payloads rfl (nil_append _).symm hlines hlong h, Live.appended,
    append_nil] at heq
  rw [Live.appended, append_nil] at hlines
  obtain ⟨r, hr, hlength⟩ := mem_map.mp
    (hlengths ▸ by simp : 8221 ∈ (s.records .transcript).map fun r ↦ r.text.length)
  have hfits := ((payloads_eq_iff hlines).mp heq r hr).1
  rw [Record.Fits, hlength] at hfits
  exact absurd hfits (by decide)

end Noobia.Council
