import Noobia.Council.Replay
import Noobia.Council.Timed
import Noobia.Council.Written
import Noobia.Lib.Amid

/-!
# The window of a participant

A participant who is given the turn asks for the context: the transcript from its previous grant on.
`transcript_stream_context` goes through the file twice.  On the first pass it looks for the grants
of the participant, on the second it sends what it reads from the last but one of them to the end.

What it sends should include the message that got the participant its turn.  But `relay_message`
writes the grant and `accept_message` the message, in this order and with nothing to keep others out
in between.  `context_complete` says what a participant gets when nobody is in between at the time
the transcript is read, and `context_without_message` what it can get otherwise.
-/

namespace Noobia.Council

open List Bytes

open Routine

/-! ## Grants among the records -/

/-- Whom a record gives the turn to. -/
def Record.grantee (r : Record) : Option Bytes :=
  match r.event with
  | .grant => some r.message
  | .offlineGrant => some ((textAfter " -> " r.message).getD r.message)
  | _ => none

/-- The record goes into the file all at once: with its newline it fits the buffer that `fclose`
writes out. -/
def Record.Whole (r : Record) : Prop := r.text.length < 4096
  deriving Decidable

/-- The record is read as what it is: there is no carriage return in it, and the words that are
looked for are found in it only where they belong. -/
structure Record.Legible (r : Record) : Prop where
  line : 13 ∉ r.text
  found : r.speaker.Plain ∧ 9 ∉ r.message ∨ Council.Mute (r.text ++ [10]) ∧ r.grantee = none

instance (r : Record) : Decidable r.Legible :=
  decidable_of_iff (13 ∉ r.text ∧
      (r.speaker.Plain ∧ 9 ∉ r.message ∨ Mute (r.text ++ [10]) ∧ r.grantee = none))
    ⟨fun ⟨line, found⟩ ↦ ⟨line, found⟩, fun ⟨line, found⟩ ↦ ⟨line, found⟩⟩

/-- A record that is on one line, fits the buffer it is read into and is read as what it is. -/
structure Record.Clear (r : Record) : Prop extends r.Legible where
  oneLine : r.OneLine
  fits : r.Fits

theorem name_ends_iff {value name : Bytes} (hvalue : 10 ∉ value ∧ 13 ∉ value) (hname : 10 ∉ name) :
    (name.isPrefixOf (value ++ [10]) &&
      match (value ++ [10]).drop name.length with
      | [] => true
      | b :: _ => b = 10 || b = 13) = decide (value = name) := by
  rw [Bool.eq_iff_iff, Bool.and_eq_true, isPrefixOf_iff_prefix, decide_eq_true_eq]
  constructor
  · rintro ⟨⟨rest, hrest⟩, hend⟩
    rw [← hrest, drop_left] at hend
    cases rest with
    | nil =>
      rw [append_nil] at hrest
      exact absurd (hrest ▸ mem_append_right _ (mem_singleton_self _)) hname
    | cons b rest =>
      have hb : b ∈ value ++ [10] := by simp [← hrest]
      have hb : b = 10 := by
        rcases mem_append.mp hb with hb | hb
        · refine (by simpa using hend : b = 10 ∨ b = 13).resolve_right ?_
          rintro rfl
          exact hvalue.2 hb
        · exact mem_singleton.mp hb
      rw [hb] at hrest
      exact (CString.append_separator_prefix hname hvalue.1 []).mp ⟨rest, by simpa using hrest⟩
  · rintro rfl
    exact ⟨prefix_append _ _, by simp⟩

/-- A legible record is found to be a grant if it is one. -/
theorem Record.Legible.isGrantFor {r : Record} (h : r.Legible) (hline : r.OneLine)
    {participant : Name} (hname : 10 ∉ participant.bytes) :
    isGrantFor (CString.text (r.text ++ [10])) participant =
      decide (r.grantee = some participant.bytes) := by
  rw [text_line hline]
  rcases h.found with ⟨hspeaker, htab⟩ | ⟨hmute, hnobody⟩
  · have hmessage : 10 ∉ r.message ∧ 13 ∉ r.message :=
      ⟨fun hb ↦ hline.2 (by simp [text, hb]), fun hb ↦ h.line (by simp [text, hb])⟩
    -- in either case what follows the word is the name and the end of the line
    have hvalue (value : Bytes) (hvalue : 10 ∉ value ∧ 13 ∉ value)
        (hgrant : grantValue (r.text ++ [10]) = some (value ++ [10]))
        (hgrantee : r.grantee = some value) :
        Council.isGrantFor (r.text ++ [10]) participant =
          decide (r.grantee = some participant.bytes) := by
      rw [Council.isGrantFor, hgrant, hgrantee]
      simp only [Option.some.injEq]
      exact name_ends_iff hvalue hname
    have hgrant := grantValue_line hspeaker htab
    cases hevent : r.event
    case grant =>
      rw [hevent] at hgrant
      exact hvalue r.message hmessage hgrant (by rw [grantee, hevent])
    case offlineGrant =>
      rw [hevent] at hgrant
      refine hvalue ((textAfter " -> " r.message).getD r.message) ?_ ?_ (by rw [grantee, hevent])
      · cases harrow : textAfter " -> " r.message with
        | none => exact hmessage
        | some rest =>
          obtain ⟨i, -, rfl⟩ := Option.map_eq_some_iff.mp harrow
          exact ⟨fun hb ↦ hmessage.1 (mem_of_mem_drop hb),
            fun hb ↦ hmessage.2 (mem_of_mem_drop hb)⟩
      · rw [hgrant, textAfter, textAfter, CString.after_append_singleton (by decide) (by decide)]
        cases CString.after (ofAscii " -> ") r.message with
        | none | some rest => rfl
    all_goals
      rw [hevent] at hgrant
      rw [Council.isGrantFor, hgrant, grantee, hevent]
      rfl
  · rw [isGrantFor_of_mute hmute, hnobody]
    rfl

/-! ## The window -/

/-- Where in the transcript the participant is given the turn. -/
def grantIndices (participant : Name) (records : List Record) : List Nat :=
  (List.range records.length).filter fun k ↦
    records[k]?.bind Record.grantee = some participant.bytes

/-- The last grant of the participant, or the beginning. -/
def currentGrant (participant : Name) (records : List Record) : Nat :=
  (grantIndices participant records).getLast?.getD 0

/-- The last but one, or the beginning. -/
def previousGrant (participant : Name) (records : List Record) : Nat :=
  (grantIndices participant records).dropLast.getLast?.getD 0

section

variable {participant : Name} {records : List Record}

theorem grantIndices_append (r : Record) : grantIndices participant (records ++ [r]) =
    grantIndices participant records ++
      if r.grantee = some participant.bytes then [records.length] else [] := by
  rw [grantIndices, length_append, length_singleton, range_succ, filter_append,
    filter_singleton, getElem?_concat_length, Option.bind_some, grantIndices]
  congr 1
  · refine filter_congr fun k hk ↦ ?_
    rw [getElem?_append_left (mem_range.mp hk)]
  · by_cases h : r.grantee = some participant.bytes
    · simp [h]
    · simp [h]

theorem getLast?_le {indices : List Nat} (h : ∀ k ∈ indices, k < records.length) :
    indices.getLast?.getD 0 ≤ records.length := by
  cases hlast : indices.getLast? with
  | none => exact Nat.zero_le _
  | some k => exact (h k (mem_of_getLast? hlast)).le

theorem mem_grantIndices {k : Nat} (h : k ∈ grantIndices participant records) :
    k < records.length :=
  mem_range.mp (mem_filter.mp h).1

theorem currentGrant_le : currentGrant participant records ≤ records.length :=
  getLast?_le fun _ ↦ mem_grantIndices

theorem previousGrant_le : previousGrant participant records ≤ records.length :=
  getLast?_le fun _ hk ↦ mem_grantIndices (dropLast_subset _ hk)

theorem foldl_read (hname : 10 ∉ participant.bytes) (h : ∀ r ∈ records, r.Clear) :
    (records.flatMap Record.pieces).foldl (Grants.read participant) ⟨0, 0, 0⟩ =
      ⟨(logFile records).length,
        (logFile (records.take (previousGrant participant records))).length,
        (logFile (records.take (currentGrant participant records))).length⟩ := by
  induction records using List.reverseRecOn with
  | nil => rfl
  | append_singleton records r ih =>
    have hrecords := ih fun r' hr' ↦ h r' (mem_append_left _ hr')
    have hr := h r (mem_append_right _ (mem_singleton_self r))
    have hlength : (logFile (records ++ [r])).length =
        (logFile records).length + (r.text ++ [10]).length := by
      rw [logFile_append, length_append]
      simp [logFile]
    rw [flatMap_append, foldl_append, hrecords, flatMap_singleton,
      Record.pieces_of_fits hr.oneLine hr.fits, foldl_cons, foldl_nil, Grants.read,
      hr.isGrantFor hr.oneLine hname, hlength]
    have hindices : grantIndices participant (records ++ [r]) = _ := grantIndices_append r
    by_cases hgrant : r.grantee = some participant.bytes
    · rw [if_pos hgrant] at hindices
      have hprevious : previousGrant participant (records ++ [r]) =
          currentGrant participant records := by
        rw [previousGrant, hindices, dropLast_concat, currentGrant]
      have hcurrent : currentGrant participant (records ++ [r]) = records.length := by
        rw [currentGrant, hindices, getLast?_concat, Option.getD_some]
      rw [if_pos (decide_eq_true hgrant), hprevious, hcurrent,
        take_append_of_le_length currentGrant_le, take_left]
    · rw [if_neg hgrant, append_nil] at hindices
      have hprevious : previousGrant participant (records ++ [r]) =
          previousGrant participant records := by rw [previousGrant, hindices, previousGrant]
      have hcurrent : currentGrant participant (records ++ [r]) =
          currentGrant participant records := by rw [currentGrant, hindices, currentGrant]
      rw [if_neg (by simpa using hgrant), hprevious, hcurrent,
        take_append_of_le_length previousGrant_le,
        take_append_of_le_length currentGrant_le]

/-- **The window begins with the participant's previous grant.** -/
theorem contextStart_eq (hname : 10 ∉ participant.bytes)
    (h : ∀ r ∈ records, r.Clear) :
    contextStart (logFile records) participant =
      (logFile (records.take (previousGrant participant records))).length := by
  rw [contextStart, pieces_logFile fun r hr ↦ (h r hr).oneLine, foldl_read hname h]

/-- What is sent from there on are the records from there on. -/
theorem contextLines_eq (h : ∀ r ∈ records, r.Clear) (k : Nat) :
    contextLines (logFile records) (logFile (records.take k)).length =
      (records.drop k).map Record.text := by
  have hdrop : (logFile records).drop (logFile (records.take k)).length =
      logFile (records.drop k) := by
    conv_lhs => rw [← take_append_drop k records, logFile_append, take_append_drop]
    exact drop_left
  have hrest : ∀ r ∈ records.drop k, r.Clear := fun r hr ↦ h r (mem_of_mem_drop hr)
  rw [contextLines, hdrop, pieces_logFile fun r hr ↦ (hrest r hr).oneLine]
  generalize records.drop k = rest at hrest
  induction rest with
  | nil => rfl
  | cons r rest ih =>
    obtain ⟨hr, hrest⟩ := forall_mem_cons.mp hrest
    rw [flatMap_cons, Record.pieces_of_fits hr.oneLine hr.fits, map_append, ih hrest, map_cons,
      map_cons, (Stdio.chomp_append_newline hr.oneLine.1 hr.oneLine.2).mpr hr.line]
    rfl

end

/-! ## The transcript and the history -/

variable {cfg : Config}

/-- The records that have been added to the transcript. -/
def recordsOf (history : List (Event cfg)) : List Record :=
  history.filterMap fun e ↦
    match e with
    | .recorded _ .transcript r _ => some r
    | _ => none

/-- The transcript after all this has happened. -/
def transcriptOf (history : List (Event cfg)) : List Record :=
  cfg.logs .transcript ++ recordsOf history

/-- There is in the transcript what has been noted. -/
def Hub.Noted (s : Hub cfg) : Prop := s.records .transcript = transcriptOf s.history

variable {new : List (Event cfg)}

section

variable {c c' : Connection cfg} {K : Kind → Prop} {i : Env} {s t u : Hub cfg}

theorem transcriptOf_append (history new : List (Event cfg)) :
    transcriptOf (history ++ new) = transcriptOf history ++ recordsOf new := by
  rw [transcriptOf, transcriptOf, recordsOf, filterMap_append, append_assoc, recordsOf,
    recordsOf]

theorem Hub.Noted.of_eq (h : s.Noted) (hrecords : t.records = s.records)
    (hhistory : t.history = s.history ++ new) (hnew : recordsOf new = []) : t.Noted := by
  rw [Hub.Noted, hrecords, hhistory, transcriptOf_append, hnew, append_nil]
  exact h

theorem recordsOf_opening (now : Nat) : recordsOf (s.opening c now) = [] := by
  rw [Hub.opening]
  split
  · rfl
  · rfl

theorem Section.noted (h : Section c K i s t) (hs : s.Noted) : t.Noted := by
  have hsilent (u : Hub cfg) (hrecords : u.records = s.records) (hhistory : u.history = s.history) :
      u.Noted :=
    hs.of_eq hrecords (show u.history = s.history ++ [] by rw [hhistory, append_nil]) rfl
  cases h with
  | append log record proposal =>
    cases log with
    | transcript =>
      rw [Hub.Noted, Hub.append]
      dsimp only
      rw [Function.update_self, hs, Hub.note, transcriptOf_append]
      rfl
    | inbox =>
      rw [Hub.Noted, Hub.append]
      dsimp only
      rw [Function.update_of_ne (by decide), hs, Hub.note, transcriptOf_append]
      exact (append_nil _).symm
  | settle speaker => exact hs.of_eq rfl (history_settle s speaker) rfl
  | propose now => exact hs.of_eq rfl rfl (recordsOf_opening now)
  | reserve now =>
    rw [Hub.reserve]
    split
    · exact hsilent _ rfl rfl
    · exact hsilent _ rfl rfl
  | idle | seen | online | measure | mark | markFile | release => exact hsilent _ rfl rfl
  | _ => exact hs.of_eq rfl rfl rfl

/-! ## What the caller is told -/

/-- What the handlers of others may do. -/
structure Beside (c : Connection cfg) (s t : Hub cfg) : Prop where
  grown : Grown (· ≠ c) s t
  noted : s.Noted → t.Noted

theorem Beside.refl (c : Connection cfg) (s : Hub cfg) : Beside c s s := ⟨.refl s, id⟩

theorem Beside.trans (hst : Beside c s t) (htu : Beside c t u) : Beside c s u :=
  ⟨hst.grown.trans htu.grown, fun h ↦ htu.noted (hst.noted h)⟩

theorem Section.beside (h : Section c' K i s t) (hne : c' ≠ c) : Beside c s t :=
  ⟨h.grown.mono fun _ hx ↦ hx ▸ hne, h.noted⟩

theorem beside_bind {α β : Type} {U : Env → Hub cfg → Hub cfg → Prop} {m : Handler cfg α}
    {f : α → Handler cfg β} {R : α → Hub cfg → Prop} {Q : β → Hub cfg → Prop}
    (hm : m.Amidst (Beside c) U s R) (hf : ∀ a t, R a t → (f a).Amidst (Beside c) U t Q) :
    (m >>= f).Amidst (Beside c) U s Q :=
  amidst_bind (Beside.refl c) hm hf

/-- The line sent to a caller, if that is what the note is about. -/
def Event.lineTo (c : Connection cfg) : Event cfg → Option Bytes
  | .sent c' line => if c' = c then some line else none
  | _ => none

theorem replies_eq (c : Connection cfg) (s t : Hub cfg) :
    replies c s t = (t.history.drop s.history.length).filterMap (Event.lineTo c) := by
  rw [replies]
  refine congrArg (List.filterMap · _) (funext fun e ↦ ?_)
  cases e <;> rfl

/-- Since the state `s` the caller has been told these lines. -/
structure Told (c : Connection cfg) (s : Hub cfg) (lines : List Bytes) (t : Hub cfg) : Prop where
  noted : t.Noted
  history : s.history <+: t.history
  lines : replies c s t = lines

variable {lines : List Bytes}

theorem Told.grow (h : Told c s lines t) (hnoted : u.Noted)
    (hhistory : u.history = t.history ++ new) {more : List Bytes}
    (hmore : new.filterMap (Event.lineTo c) = more) : Told c s (lines ++ more) u := by
  refine ⟨hnoted, h.history.trans (hhistory ▸ prefix_append _ _), ?_⟩
  rw [replies_eq, hhistory, drop_append_of_le_length h.history.length_le,
    filterMap_append, hmore, ← h.lines, replies_eq]

theorem Told.beside (h : Told c s lines t) (htu : Beside c t u) : Told c s lines u := by
  obtain ⟨new, hnew, hothers⟩ := htu.grown.history
  have hmore : new.filterMap (Event.lineTo c) = [] := by
    refine filterMap_eq_nil_iff.mpr fun e he ↦ ?_
    have hne := hothers e he
    cases e with
    | sent c' line => exact if_neg hne
    | _ => rfl
  rw [← append_nil lines]
  exact h.grow (htu.noted h.noted) hnew hmore

/-- A section of the handler itself that sends nothing. -/
theorem Told.own (h : Told c s lines t) (hK : ¬ K .reply) (htu : Section c K i t u) :
    Told c s lines u := by
  obtain ⟨new, hnew, hown, -⟩ := htu.effect (K := K) fun _ _ h ↦ h
  have hmore : new.filterMap (Event.lineTo c) = [] := by
    refine filterMap_eq_nil_iff.mpr fun e he ↦ ?_
    have hkind := (hown e he).2
    cases e with
    | sent c' line => exact absurd hkind hK
    | _ => rfl
  rw [← append_nil lines]
  exact h.grow (htu.noted h.noted) hnew hmore

theorem Told.send (h : Told c s lines t) (line : Bytes) :
    Told c s (lines ++ [line]) (t.note (.sent c line)) := by
  have hhistory : (t.note (.sent c line)).history = t.history ++ [.sent c line] := rfl
  have hnoted : (t.note (.sent c line)).Noted := h.noted.of_eq rfl hhistory rfl
  have hmore : [Event.sent c line].filterMap (Event.lineTo c) = [line] := by simp [Event.lineTo]
  exact h.grow hnoted hhistory hmore

end

/-! ## Messages and their grants -/

/-- What the caller says, if it wants to say something. -/
def Connection.speech (c : Connection cfg) : Option Bytes :=
  match c.command with
  | some (.say message) | some (.initiate message) => some message
  | _ => none

/-- The note is that what the caller says has been added to the transcript. -/
def Event.Tells (c : Connection cfg) (message : Bytes) : Event cfg → Prop
  | .recorded c' .transcript r _ => c' = c ∧ r.speaker = c.name ∧ r.message = message
  | _ => False

/-- The note is that a grant has been added to the transcript on behalf of somebody who says
something. -/
def Event.grantFor : Event cfg → Option (Connection cfg × Bytes)
  | .recorded c .transcript r _ =>
    if r.event = .grant then c.speech.map fun message ↦ (c, message) else none
  | _ => none

/-- Behind every grant for what the caller says there is what it says. -/
def Settled (history : List (Event cfg)) (c : Connection cfg) : Prop :=
  ∀ a e b message, history = a ++ e :: b → e.grantFor = some (c, message) →
    ∃ e' ∈ b, e'.Tells c message

/-- A handler that has recorded a grant for what its caller says goes on when the log can be
opened. -/
def Recording (k : Nat) (i : Env) (s : Hub cfg) : Prop :=
  (∃ e ∈ s.history, ∃ speech ∈ e.grantFor, speech.1.socket = k) → i.disk = true
  deriving Decidable

/-- A section of a handler of `CONTEXT` that comes at the right time: the log can be opened, and
when it is read, between the first line of the reply and the second, its records are legible and
whoever has recorded a grant for what it says has come to its end. -/
structure Punctual (c : Connection cfg) (i : Env) (sys sys' : System Env (Hub cfg)) : Prop where
  disk : i.disk = true
  read : .sent c (Bytes.ofAscii "CONTEXT_BEGIN\n") ∈ sys.shared.history →
    sys'.shared.history = sys.shared.history → (∀ r ∈ sys.shared.records .transcript, r.Legible) ∧
      ∀ e ∈ sys.shared.history, ∀ speech ∈ e.grantFor, sys.Ended speech.1.socket = true

instance (c : Connection cfg) (i : Env) (sys sys' : System Env (Hub cfg)) :
    Decidable (Punctual c i sys sys') :=
  decidable_of_iff (i.disk = true ∧ (.sent c (Bytes.ofAscii "CONTEXT_BEGIN\n") ∈
      sys.shared.history → sys'.shared.history = sys.shared.history →
        (∀ r ∈ sys.shared.records .transcript, r.Legible) ∧
        ∀ e ∈ sys.shared.history, ∀ speech ∈ e.grantFor, sys.Ended speech.1.socket = true))
    ⟨fun ⟨disk, read⟩ ↦ ⟨disk, read⟩, fun ⟨disk, read⟩ ↦ ⟨disk, read⟩⟩

/-! ## What is said is recorded -/

section

variable {c : Connection cfg} {history : List (Event cfg)} {s : Hub cfg} {message : Bytes}

theorem of_grantFor {e : Event cfg} (h : e.grantFor = some (c, message)) :
    e.connection = c ∧ e.kind = .record ∧ c.speech = some message := by
  cases e with
  | recorded c' log r proposal =>
    cases log with
    | transcript =>
      obtain ⟨hevent, hspeech⟩ := Option.ite_none_right_eq_some.mp h
      obtain ⟨message', hmessage, hpair⟩ := Option.map_eq_some_iff.mp hspeech
      obtain ⟨rfl, rfl⟩ := Prod.mk.inj hpair
      exact ⟨rfl, by rw [Event.kind, hevent]; rfl, hmessage⟩
    | inbox => cases h
  | _ => cases h

/-- No grant has been recorded for what the caller says. -/
def Ungranted (history : List (Event cfg)) (c : Connection cfg) : Prop :=
  ∀ e ∈ history, ∀ message, e.grantFor ≠ some (c, message)

theorem Ungranted.settled (h : Ungranted history c) : Settled history c := by
  intro a e b message hsplit hgrant
  exact absurd hgrant (h e (by simp [hsplit]) message)

theorem Ungranted.append (h : Ungranted history c) (hnew : Ungranted new c) :
    Ungranted (history ++ new) c :=
  fun e he ↦ (mem_append.mp he).elim (h e) (hnew e)

theorem Settled.append (h : Settled history c) (hnew : Ungranted new c) :
    Settled (history ++ new) c := by
  intro a e b message hsplit hgrant
  have hmem : e ∉ new := fun he ↦ hnew e he message hgrant
  rcases append_eq_append_iff.mp hsplit with ⟨a', -, rfl⟩ | ⟨a', rfl, hb⟩
  · exact absurd (mem_append_right _ mem_cons_self) hmem
  cases a' with
  | nil =>
    rw [nil_append] at hb
    exact absurd (hb ▸ mem_cons_self) hmem
  | cons e' a' =>
    obtain ⟨rfl, rfl⟩ := List.cons.inj hb
    obtain ⟨e', he', htells⟩ := h a e a' message rfl hgrant
    exact ⟨e', mem_append_left _ he', htells⟩

/-- What is said, recorded now, is behind every grant there is. -/
theorem Settled.tells {e : Event cfg} (hspeech : c.speech = some message)
    (htells : e.Tells c message) (he : e.grantFor = none) : Settled (history ++ [e]) c := by
  intro a e' b message' hsplit hgrant
  obtain rfl := Option.some.inj (hspeech.symm.trans (of_grantFor hgrant).2.2)
  rcases eq_nil_or_concat b with rfl | ⟨b, last, rfl⟩
  · obtain ⟨-, hlast⟩ := append_inj' hsplit rfl
    rw [← (List.cons.inj hlast).1, he] at hgrant
    cases hgrant
  · rw [concat_eq_append, ← cons_append, ← append_assoc] at hsplit
    obtain ⟨-, hlast⟩ := append_inj' hsplit rfl
    rw [← (List.cons.inj hlast).1]
    exact ⟨e, by simp, htells⟩

/-- The log can be opened once a grant has been recorded. -/
abbrev Heeds (c : Connection cfg) (i : Env) (s _ : Hub cfg) : Prop :=
  ¬ Ungranted s.history c → i.disk = true

/-- What neither the others can change nor a section that records nothing. -/
theorem quiet_amidst {α : Type} {m : Handler cfg α} (hm : m.Takes (Section c (· ≠ .record)))
    {P : List (Event cfg) → Connection cfg → Prop}
    (hP : ∀ {history new}, P history c → Ungranted new c → P (history ++ new) c)
    (hs : P s.history c) : m.Amidst (Beside c) (Heeds c) s fun _ t ↦ P t.history c := by
  refine hm.amidst (P := fun t ↦ P t.history c) (fun s t hst hs ↦ ?_) (fun i s t _ h hs ↦ ?_) hs
  · obtain ⟨new, hnew, hothers⟩ := hst.grown.history
    rw [hnew]
    exact hP hs fun e he message hgrant ↦ hothers e he (of_grantFor hgrant).1
  · obtain ⟨new, hnew, hown, -⟩ := h.effect (K := (· ≠ .record)) fun _ _ h ↦ h
    rw [hnew]
    exact hP hs fun e he message hgrant ↦ (hown e he).2 (of_grantFor hgrant).2.1

/-- Until the message is routed no grant is recorded for it. -/
theorem relayMessage_amidst (hs : Ungranted s.history c) :
    (relayMessage c message).Amidst (Beside c) (Heeds c) s fun outcome t ↦
      outcome = .routed ∨ Ungranted t.history c := by
  have hpure (outcome : Routed) {t : Hub cfg} (ht : Ungranted t.history c) :
      (pure outcome : Handler cfg Routed).Amidst (Beside c) (Heeds c) t fun outcome t ↦
        outcome = .routed ∨ Ungranted t.history c :=
    fun a u hu ↦ .inr (quiet_amidst (m := pure outcome) takes_pure Ungranted.append ht a u hu)
  rw [relayMessage]
  dsimp only
  refine amidst_ite (fun _ ↦ hpure _ hs) fun _ ↦ amidst_ite (fun _ ↦ hpure _ hs) fun _ ↦ ?_
  refine beside_bind (quiet_amidst (reachHuman_takes _) Ungranted.append hs)
    fun next t ht ↦ ?_
  refine beside_bind (quiet_amidst (takes_foldlM
    (deliverTo_takes (by decide) _ _) _ _) Ungranted.append ht) fun next t ht ↦ ?_
  refine beside_bind (quiet_amidst (moveTurn_takes (by decide) _ next)
    Ungranted.append ht) fun next t ht ↦ ?_
  cases next with
  | none => exact hpure _ ht
  | some p =>
    have hany {α : Type} (m : Handler cfg α) (t : Hub cfg) :
        m.Amidst (Beside c) (Heeds c) t fun _ _ ↦ True := fun _ _ _ ↦ trivial
    refine beside_bind (hany _ t) fun _ t _ ↦ ?_
    exact beside_bind (hany _ t) fun _ t _ ↦ amidst_pure fun u _ ↦ .inl rfl

theorem transcriptAppend_amidst (hspeech : c.speech = some message) {event : LogEvent}
    (hevent : event ≠ .grant) :
    (transcriptAppend c .transcript c.name event message 0).Amidst (Beside c) (Heeds c) s
      fun _ t ↦ Settled t.history c := by
  refine amidst_atomic fun i t u _ hi htu ↦ ?_
  have hlater {t : Hub cfg} (ht : Settled t.history c) (htu : Beside c t u) :
      Settled u.history c :=
    quiet_amidst (m := pure ()) takes_pure Settled.append ht () u ⟨rfl, htu⟩
  dsimp only at htu
  split at htu
  · refine hlater ?_ htu
    exact Settled.tells hspeech ⟨rfl, rfl, rfl⟩ (if_neg hevent)
  · rename_i hdisk
    exact hlater (Ungranted.settled (not_not.mp fun h ↦ hdisk (hi h))) htu

theorem acceptMessage_amidst (hspeech : c.speech = some message) {event : LogEvent}
    (hevent : event ≠ .grant) (reserved : Bool) (hs : Ungranted s.history c) :
    (acceptMessage c message event reserved).Amidst (Beside c) (Heeds c) s
      fun _ t ↦ Settled t.history c := by
  have hreject (error : String) {t : Hub cfg} (ht : Ungranted t.history c) :
      (rejectMessage c reserved error).Amidst (Beside c) (Heeds c) t
        fun _ t ↦ Settled t.history c :=
    quiet_amidst (rejectMessage_takes (by decide) (fun _ ↦ by decide) _) Settled.append ht.settled
  refine beside_bind (relayMessage_amidst hs) fun outcome t ht ↦ ?_
  cases outcome with
  | routed =>
    refine beside_bind (transcriptAppend_amidst hspeech hevent) fun _ t ht ↦ ?_
    exact quiet_amidst (takes_bind (markActivity_takes (by decide)) fun _ ↦
      send_takes (by decide) _) Settled.append ht
  | targetOffline | targetUnknown | targetSelf => exact hreject _ (ht.resolve_left nofun)

/-- **What is said is recorded** behind the grant for it, by the time the handler has come to its
end. -/
theorem handleConnection_settled (hspeech : c.speech = some message)
    (hs : Ungranted s.history c) : (handleConnection c).Amidst (Beside c) (Heeds c) s
      fun _ t ↦ Settled t.history c := by
  refine beside_bind (quiet_amidst markSeen_takes Ungranted.append hs)
    fun _ t ht ↦ ?_
  refine beside_bind (R := fun _ t ↦ Settled t.history c) ?_ fun _ t ht ↦
    quiet_amidst (networkClose_takes (by decide)) Settled.append ht
  rw [serveLine]
  cases hcommand : c.command with
  | none => exact quiet_amidst takes_pure Settled.append ht.settled
  | some command =>
    refine beside_bind (quiet_amidst (checkTurn_takes (by decide))
      Ungranted.append ht) fun hasTurn t ht ↦ ?_
    have hreply (line : Bytes) {t : Hub cfg} (ht : Ungranted t.history c) :
        (send c line).Amidst (Beside c) (Heeds c) t fun _ t ↦ Settled t.history c :=
      quiet_amidst (send_takes (by decide) _) Settled.append ht.settled
    have hsaid := hspeech
    rw [Connection.speech, hcommand] at hsaid
    cases command
    case say message' =>
      obtain rfl := Option.some.inj hsaid
      exact amidst_ite (fun _ ↦ hreply _ ht) fun _ ↦
        acceptMessage_amidst hspeech (by decide) false ht
    case initiate message' =>
      obtain rfl := Option.some.inj hsaid
      refine beside_bind (quiet_amidst (reserveInitiation_takes (by decide))
        Ungranted.append ht) fun remaining t ht ↦ ?_
      exact amidst_ite (fun _ ↦ hreply _ ht) fun _ ↦
        acceptMessage_amidst hspeech (by decide) true ht
    all_goals cases hsaid

end

/-! ## The handler -/

/-- A section of a handler of `CONTEXT` that goes as it should: the log can be opened, and when it
is read its records are legible and no message is missing. -/
structure Composed (c : Connection cfg) (i : Env) (s t : Hub cfg) : Prop where
  disk : i.disk = true
  read : .sent c (Bytes.ofAscii "CONTEXT_BEGIN\n") ∈ s.history → t.history = s.history →
    (∀ r ∈ s.records .transcript, r.Legible) ∧ ∀ c', Settled s.history c'

/-- The reply to `CONTEXT`. -/
def contextReply (lines : List Bytes) : List Bytes :=
  Bytes.ofAscii "CONTEXT_BEGIN\n" ::
    (lines.map fun line ↦ Bytes.ofAscii "CONTEXT " ++ line ++ [10]) ++
    [Bytes.ofAscii "CONTEXT_END\n"]

/-- The lines are what has been read of the transcript: the first pass was made after `scanned`, the
second after `read`. -/
def ReadOut (c : Connection cfg) (s : Hub cfg) (lines : List Bytes) (t : Hub cfg) : Prop :=
  ∃ scanned read : List (Event cfg), s.history <+: scanned ∧ scanned <+: read ∧ read <+: t.history ∧
    (∀ r ∈ transcriptOf read, r.Legible) ∧ (∀ c', Settled read c') ∧
    lines = contextLines (logFile (transcriptOf read))
      (contextStart (logFile (transcriptOf scanned)) c.name)

section

variable {c : Connection cfg} {s₀ s : Hub cfg} {lines : List Bytes}

theorem ReadOut.mono {t u : Hub cfg} (h : ReadOut c s₀ lines t) (htu : t.history <+: u.history) :
    ReadOut c s₀ lines u := by
  obtain ⟨scanned, read, hscanned, hread, ht, hlegible, hsettled, rfl⟩ := h
  exact ⟨scanned, read, hscanned, hread, ht.trans htu, hlegible, hsettled, rfl⟩

theorem Beside.begins {t u : Hub cfg} (h : Beside c t u) : t.history <+: u.history := by
  obtain ⟨new, hnew, -⟩ := h.grown.history
  exact hnew ▸ prefix_append _ _

theorem send_amidst (hs : Told c s₀ lines s) (line : Bytes) :
    (send c line).Amidst (Beside c) (Composed c) s fun _ t ↦
      Told c s₀ (lines ++ [line]) t ∧ s.history <+: t.history := by
  refine amidst_atomic fun i t u hst _ htu ↦ ⟨((hs.beside hst).send line).beside htu, ?_⟩
  exact hst.begins.trans ((prefix_append _ _).trans htu.begins)

/-- The lines are sent one after the other, or only some of them. -/
theorem sendLines_amidst (word : String) (rest : List Bytes) (hs : Told c s₀ lines s) :
    (sendLines c word rest).Amidst (Beside c) (Composed c) s fun ok t ↦
      s.history <+: t.history ∧
        ∃ sent, Told c s₀ (lines ++ sent.map (ofAscii word ++ · ++ [10])) t ∧
        (ok = true → sent = rest) := by
  induction rest generalizing lines s with
  | nil =>
    refine amidst_pure fun t hst ↦ ⟨hst.begins, [], ?_, fun _ ↦ rfl⟩
    rw [map_nil, append_nil]
    exact hs.beside hst
  | cons line rest ih =>
    refine beside_bind (R := fun ok t ↦ s.history <+: t.history ∧
      if ok then Told c s₀ (lines ++ [ofAscii word ++ line ++ [10]]) t else Told c s₀ lines t)
      (amidst_atomic fun i t u hst _ htu ↦ ?_) fun ok t ht ↦ ?_
    · dsimp only at htu ⊢
      split at htu
      · rename_i hok
        rw [if_pos hok]
        exact ⟨hst.begins.trans ((prefix_append _ _).trans htu.begins),
          ((hs.beside hst).send _).beside htu⟩
      · rename_i hok
        rw [if_neg hok]
        exact ⟨hst.begins.trans htu.begins, (hs.beside hst).beside htu⟩
    · refine amidst_ite (fun hok ↦ ?_) fun hok ↦ ?_
      · rw [if_pos hok] at ht
        intro ok' u hu
        obtain ⟨hbegins, sent, htold, hsent⟩ := ih ht.2 ok' u hu
        refine ⟨ht.1.trans hbegins, line :: sent, ?_, fun hok' ↦ ?_⟩
        · rw [map_cons, append_cons]
          exact htold
        · rw [hsent hok']
      · rw [if_neg hok] at ht
        refine amidst_pure fun u htu ↦ ⟨ht.1.trans htu.begins, [], ?_, nofun⟩
        rw [map_nil, append_nil]
        exact ht.2.beside htu

theorem readContext_amidst (hs : Told c s₀ [ofAscii "CONTEXT_BEGIN\n"] s) :
    (readContext c.name).Amidst (Beside c) (Composed c) s fun lines t ↦
      Told c s₀ [ofAscii "CONTEXT_BEGIN\n"] t ∧ ReadOut c s₀ lines t := by
  refine beside_bind (R := fun start t ↦
    Told c s₀ [ofAscii "CONTEXT_BEGIN\n"] t ∧ ∃ scanned, s₀.history <+: scanned ∧
      scanned <+: t.history ∧
      start = some (contextStart (logFile (transcriptOf scanned)) c.name))
    (amidst_atomic fun i t u hst hi htu ↦ ?_) ?_
  · have ht := hs.beside hst
    refine ⟨ht.beside htu, t.history, ht.history, htu.begins, ?_⟩
    rw [if_pos hi.disk, Hub.transcript, ht.noted]
  rintro _ t ⟨ht, scanned, hscanned, hhistory, rfl⟩
  refine amidst_atomic fun i u v htu hi huv ↦ ?_
  have hu := ht.beside htu
  have hbegin : Event.sent c (ofAscii "CONTEXT_BEGIN\n") ∈ u.history := by
    have hmem : ofAscii "CONTEXT_BEGIN\n" ∈ replies c s₀ u := by
      rw [hu.lines]
      exact mem_singleton_self _
    rw [replies_eq, mem_filterMap] at hmem
    obtain ⟨e, he, hline⟩ := hmem
    cases e with
    | sent c' line =>
      obtain ⟨rfl, rfl⟩ : c' = c ∧ line = ofAscii "CONTEXT_BEGIN\n" := by
        simpa [Event.lineTo] using hline
      exact mem_of_mem_drop he
    | _ => cases hline
  obtain ⟨hlegible, hsettled⟩ := hi.read hbegin rfl
  rw [hu.noted] at hlegible
  refine ⟨hu.beside huv, scanned, u.history, hscanned, hhistory.trans htu.begins, huv.begins,
    hlegible, hsettled, ?_⟩
  change contextLines (logFile (u.records .transcript)) _ = _
  rw [hu.noted]

/-- The reply is complete, and then it is what has been read of the transcript. -/
def Served (c : Connection cfg) (s t : Hub cfg) : Prop :=
  ∃ lines, Told c s lines t ∧
    (Bytes.ofAscii "CONTEXT_END\n" ∈ lines → ∃ window, lines = contextReply window ∧
      ReadOut c s window t)

theorem Served.beside {t u : Hub cfg} (h : Served c s t) (htu : Beside c t u) : Served c s u := by
  obtain ⟨lines, htold, hread⟩ := h
  refine ⟨lines, htold.beside htu, fun hend ↦ ?_⟩
  obtain ⟨window, hlines, hwindow⟩ := hread hend
  exact ⟨window, hlines, hwindow.mono htu.begins⟩

theorem Served.own {t u : Hub cfg} {K : Kind → Prop} {i : Env} (h : Served c s t) (hK : ¬ K .reply)
    (htu : Section c K i t u) : Served c s u := by
  obtain ⟨lines, htold, hread⟩ := h
  refine ⟨lines, htold.own hK htu, fun hend ↦ ?_⟩
  obtain ⟨window, hlines, hwindow⟩ := hread hend
  obtain ⟨new, hnew, -⟩ := htu.grown.history
  exact ⟨window, hlines, hwindow.mono (hnew ▸ prefix_append _ _)⟩

theorem sendContext_amidst (hhub : cfg.isHub = true) (hs : Told c s₀ [] s) :
    (sendContext c).Amidst (Beside c) (Composed c) s fun _ ↦ Served c s₀ := by
  have hframe (line : Bytes) :
      ofAscii "CONTEXT_END\n" ≠ ofAscii "CONTEXT " ++ line ++ [10] := by
    intro h
    have := congrArg (·[7]?) h
    simp [ofAscii] at this
  rw [sendContext, if_pos hhub]
  refine beside_bind (send_amidst hs _) fun _ t ht ↦ ?_
  refine beside_bind (readContext_amidst ht.1) fun window t ht ↦ ?_
  refine beside_bind (sendLines_amidst "CONTEXT " window ht.1) fun ok u hu ↦ ?_
  obtain ⟨hbegins, sent, htold, hsent⟩ := hu
  refine amidst_ite (fun hok ↦ ?_) fun hok ↦ ?_
  · obtain rfl := hsent hok
    intro _ v hv
    obtain ⟨hv, huv⟩ := send_amidst htold _ () v hv
    exact ⟨_, hv, fun _ ↦ ⟨sent, rfl, ht.2.mono (hbegins.trans huv)⟩⟩
  · intro _ v hv
    obtain ⟨hv, -⟩ := send_amidst htold _ () v hv
    refine ⟨_, hv, fun hend ↦ ?_⟩
    simp only [nil_append, cons_append, mem_cons, mem_append, mem_map,
      not_mem_nil, or_false] at hend
    rcases hend with hend | ⟨line, -, hline⟩ | hend
    · exact absurd hend (by decide)
    · exact absurd hline.symm (hframe line)
    · exact absurd hend (by decide)

/-- **Whatever the other handlers do**, a handler of `CONTEXT` that goes as it should sends what it
has read. -/
theorem handleConnection_amidst (hhub : cfg.isHub = true) (hc : c.command = some .context)
    (hs : Told c s [] s) : (handleConnection c).Amidst (Beside c) (Composed c) s
      fun _ ↦ Served c s := by
  have hown {α : Type} {m : Handler cfg α} (hm : m.Takes (Section c fun k ↦ k ≠ .reply))
      {t : Hub cfg} (ht : Told c s [] t) :
      m.Amidst (Beside c) (Composed c) t fun _ ↦ Told c s [] :=
    hm.amidst (fun _ _ h ht ↦ ht.beside h) (fun _ _ _ _ h ht ↦ ht.own (by simp) h) ht
  refine beside_bind (hown markSeen_takes hs) fun _ t ht ↦ ?_
  refine beside_bind (R := fun _ ↦ Served c s) ?_ fun _ t ht ↦ ?_
  · rw [serveLine, hc]
    exact beside_bind (hown (checkTurn_takes (by decide)) ht) fun _ t ht ↦
      sendContext_amidst hhub ht
  · have hclose : (networkClose c).Takes (Section c fun k ↦ k ≠ .reply) :=
      networkClose_takes (by decide)
    exact hclose.amidst (fun _ _ h ht ↦ ht.beside h) (fun _ _ _ _ h ht ↦ ht.own (by simp) h) ht

end

/-! ## Runs -/

/-- The handlers after an interleaving. -/
def Hub.serving (s : Hub cfg) (acts : List (Act (cfg.Person × Bytes) Env)) : System Env (Hub cfg) :=
  System.run streamThread ⟨s, []⟩ acts

/-- The connection on a socket on which somebody sends these bytes. -/
def caller (socket : Nat) (call : cfg.Person × Bytes) : Connection cfg :=
  ⟨socket, call.1, (networkReadLine messageLength call.2).map Prod.fst⟩

section

variable {c : Connection cfg} {s t : Hub cfg}

/-- What a section of the handler on a socket can do. -/
def TakesOn (socket : Nat) (i : Env) (s t : Hub cfg) : Prop :=
  ∃ c, Connection.socket c = socket ∧ Section c (fun _ ↦ True) i s t

theorem streamThread_takes (socket : Nat) (call : cfg.Person × Bytes) :
    (streamThread socket call).Takes (TakesOn socket) := by
  have h := handleConnection_section (caller socket call)
  exact h.mono fun _ _ _ h ↦ ⟨_, rfl, h⟩

theorem serving_takesAt (s : Hub cfg) (acts : List (Act (cfg.Person × Bytes) Env)) :
    (s.serving acts).TakesAt TakesOn := by
  have hstart : (⟨s, []⟩ : System Env (Hub cfg)).TakesAt TakesOn := nofun
  exact hstart.run streamThread_takes acts

theorem served_noted (hs : s.Noted) (acts : List (Act (cfg.Person × Bytes) Env)) :
    (s.served acts).Noted := by
  have hstart : (⟨s, []⟩ : System Env (Hub cfg)).Takes fun i s t ↦ ∃ socket, TakesOn socket i s t :=
    nofun
  have htakes (socket : Nat) (call : cfg.Person × Bytes) :
      (streamThread socket call).Takes fun i s t ↦ ∃ socket, TakesOn socket i s t :=
    (streamThread_takes socket call).mono fun _ _ _ h ↦ ⟨socket, h⟩
  refine (hstart.run htakes (R := fun s t ↦ s.Noted → t.Noted) (fun _ ↦ id)
    (fun h h' hs ↦ h' (h hs)) ?_ acts).2 hs
  rintro i s t ⟨_, _, -, h⟩
  exact h.noted

/-- What the run of a handler that has come to its end looks like from there. -/
theorem amid_of_run {start : Hub cfg} {before later : List (Act (cfg.Person × Bytes) Env)}
    {call : cfg.Person × Bytes} (hc : c = caller (start.serving before).threads.length call)
    {U : Env → Hub cfg → Hub cfg → Prop}
    (hthrough : System.Through streamThread (fun k i s t ↦ k = c.socket → U i s.shared t.shared)
      (start.serving (before ++ [.spawn call])) later)
    (hdone : (start.serving (before ++ .spawn call :: later)).Ended c.socket = true) :
    (handleConnection c).Amid (Beside c) U (start.served before) ()
      (start.served (before ++ .spawn call :: later)) := by
  have hspawn : start.serving (before ++ [.spawn call]) =
      (start.serving before).act streamThread (.spawn call) := System.run_append _ _ _ _
  have hrun : start.serving (before ++ .spawn call :: later) =
      (start.serving (before ++ [.spawn call])).run streamThread later := by
    rw [Hub.serving, append_cons, System.run_append, ← Hub.serving]
  have hsocket : c.socket = (start.serving before).threads.length := by rw [hc, caller]
  have hk : (start.serving (before ++ [.spawn call])).threads[c.socket]? =
      some (handleConnection c) := by
    rw [hspawn, hsocket, System.act, getElem?_concat_length, hc]
    rfl
  have hshared : (start.serving (before ++ [.spawn call])).shared = start.served before := by
    rw [hspawn]
    rfl
  rw [hrun] at hdone
  have hothers (j : Nat) (i : Env) (s t : Hub cfg) (hne : j ≠ c.socket) (h : TakesOn j i s t) :
      Beside c s t := by
    obtain ⟨c', hsocket', h⟩ := h
    refine h.beside ?_
    rintro rfl
    exact hne hsocket'.symm
  have hamid := System.run_amid (Beside.refl c) Beside.trans streamThread_takes hothers
    (serving_takesAt start _) hk hthrough hdone
  rw [hshared, ← hrun] at hamid
  exact hamid

/-- A handler of `CONTEXT` that has come to its end, among the others. -/
theorem served_of_run (hhub : cfg.isHub = true) {start : Hub cfg} (hnoted : start.Noted)
    {before later : List (Act (cfg.Person × Bytes) Env)} {call : cfg.Person × Bytes}
    (hc : c = caller (start.serving before).threads.length call)
    (hcommand : c.command = some .context)
    (hthrough : System.Through streamThread
      (fun k i s t ↦ k = c.socket → Composed c i s.shared t.shared)
      (start.serving (before ++ [.spawn call])) later)
    (hdone : (start.serving (before ++ .spawn call :: later)).Ended c.socket = true) :
    Served c (start.served before) (start.served (before ++ .spawn call :: later)) := by
  have htold : Told c (start.served before) [] (start.served before) :=
    ⟨served_noted hnoted before, prefix_refl _, by rw [replies_eq, drop_length]; rfl⟩
  exact handleConnection_amidst hhub hcommand htold () _ (amid_of_run hc hthrough hdone)

/-! ## Who has recorded what -/

/-- A note is in the name of the caller on its socket. -/
theorem spawned_of_note (hs : s.history = []) (acts : List (Act (cfg.Person × Bytes) Env))
    {e : Event cfg} (he : e ∈ (s.served acts).history) :
    ∃ call, System.Spawned streamThread ⟨s, []⟩ acts e.connection.socket call ∧
      e.connection = caller e.connection.socket call := by
  have hempty : e ∉ s.history := by simp [hs]
  obtain ⟨call, k, i, t, u, hspawned, -, hsection, hold, hnew⟩ := System.exists_section
    (T := fun call socket ↦ Section (caller socket call) fun _ ↦ True)
    (P := fun t : Hub cfg ↦ e ∈ t.history) (fun _ _ ↦ handleConnection_section _) hempty he
  have hconnection : e.connection = caller k call := by
    by_contra hne
    exact hold (hsection.grown.history_of_not hnew hne)
  rw [hconnection]
  exact ⟨call, hspawned, rfl⟩

/-- **What is said is recorded**: whoever has come to its end has recorded what it says behind every
grant it has recorded for it. -/
theorem settled_of_ended (hs : s.history = []) {acts : List (Act (cfg.Person × Bytes) Env)}
    (hrecording : System.Through streamThread (fun k i sys _ ↦ Recording k i sys.shared) ⟨s, []⟩
      acts) {e : Event cfg} (he : e ∈ (s.served acts).history) {message : Bytes}
    (hgrant : e.grantFor = some (c, message)) (hended : (s.serving acts).Ended c.socket = true) :
    Settled (s.served acts).history c := by
  obtain ⟨hconnection, -, hspeech⟩ := of_grantFor hgrant
  obtain ⟨call, ⟨before, later, rfl, hsocket⟩, hc⟩ := spawned_of_note hs acts he
  rw [hconnection] at hsocket hc
  have hfresh : Ungranted (s.served before).history c := by
    intro e' he' message' hgrant'
    obtain ⟨call', hspawned, -⟩ := spawned_of_note hs before he'
    rw [(of_grantFor hgrant').1] at hspawned
    exact absurd hspawned.lt (by rw [hsocket]; exact Nat.lt_irrefl _)
  rw [append_cons] at hrecording
  have hthrough : System.Through streamThread
      (fun k i sys sys' ↦ k = c.socket → Heeds c i sys.shared sys'.shared)
      (s.serving (before ++ [.spawn call])) later := by
    refine (System.through_append.mp hrecording).2.mono fun before' k i _ _ h hk hgranted ↦ h ?_
    simp only [Ungranted, not_forall, not_not] at hgranted
    obtain ⟨e', he', message', hgrant'⟩ := hgranted
    exact ⟨e', he', (c, message'), hgrant', hk.symm⟩
  refine handleConnection_settled hspeech hfresh () _ (amid_of_run ?_ hthrough hended)
  rw [← hsocket] at hc
  exact hc

/-- Where a handler of `CONTEXT` comes at the right time, no message is missing. -/
theorem composed_of_punctual (hs : s.history = [])
    {before later : List (Act (cfg.Person × Bytes) Env)} {call : cfg.Person × Bytes}
    (hrecording : System.Through streamThread (fun k i sys _ ↦ Recording k i sys.shared) ⟨s, []⟩
      (before ++ .spawn call :: later))
    (hpunctual : System.Through streamThread
      (fun k i sys sys' ↦ k = c.socket → Punctual c i sys sys')
      (s.serving (before ++ [.spawn call])) later) :
    System.Through streamThread
      (fun k i sys sys' ↦ k = c.socket → Composed c i sys.shared sys'.shared)
      (s.serving (before ++ [.spawn call])) later := by
  refine hpunctual.mono fun before' k i after hlater h hk ↦ ⟨(h hk).disk, fun hbegin hsame ↦ ?_⟩
  obtain ⟨hlegible, hended⟩ := (h hk).read hbegin hsame
  refine ⟨hlegible, fun c' a e b message hsplit hgrant ↦ ?_⟩
  have hsofar : (s.serving (before ++ [.spawn call])).run streamThread before' =
      s.serving (before ++ [.spawn call] ++ before') := (System.run_append _ _ _ _).symm
  rw [hsofar] at hsplit hended
  have he : e ∈ (s.serving (before ++ [.spawn call] ++ before')).shared.history := by
    rw [hsplit]
    simp
  rw [append_cons, hlater, ← append_assoc] at hrecording
  exact settled_of_ended hs (System.through_append.mp hrecording).1 he hgrant
    (hended e he _ hgrant) a e b message hsplit hgrant

theorem Record.Whole.fits {r : Record} (h : r.Whole) : r.Fits := by
  rw [Record.Whole] at h
  rw [Record.Fits, messageLength]
  omega

/-! ## The result -/

variable {history : List (Event cfg)}

theorem mem_recordsOf {message : Bytes} {e : Event cfg} (he : e ∈ history)
    (htells : e.Tells c message) :
    ∃ r ∈ recordsOf history, r.speaker = c.name ∧ r.message = message := by
  cases e with
  | recorded c' log r proposal =>
    cases log with
    | transcript =>
      obtain ⟨-, hspeaker, hmessage⟩ := htells
      exact ⟨r, mem_filterMap.mpr ⟨_, he, rfl⟩, hspeaker, hmessage⟩
    | inbox => cases htells
  | _ => cases htells

/-- The records behind a grant that is settled have what its caller says among them. -/
theorem Settled.mem_window (h : Settled history c) {a b : List (Event cfg)} {e : Event cfg}
    {message : Bytes} (hsplit : history = a ++ e :: b) (hgrant : e.grantFor = some (c, message))
    {k : Nat} (hk : k ≤ (transcriptOf a).length) :
    ∃ r ∈ (transcriptOf history).drop k, r.speaker = c.name ∧ r.message = message := by
  obtain ⟨e', he', htells⟩ := h a e b message hsplit hgrant
  obtain ⟨r, hr, hspeech⟩ := mem_recordsOf he' htells
  refine ⟨r, ?_, hspeech⟩
  have hrecords : transcriptOf history = transcriptOf a ++ recordsOf ([e] ++ b) := by
    rw [hsplit, transcriptOf_append]
    rfl
  rw [hrecords, drop_append_of_le_length hk]
  refine mem_append_right _ ?_
  rw [recordsOf, filterMap_append]
  exact mem_append_right _ hr

/-- What is read of the transcript is clear, being among the records at the end. -/
theorem clear_of_read (hcfg : cfg.Loaded) (hfits : ∀ r ∈ cfg.logs .transcript, r.Fits)
    (hgenuine : t.Genuine) (hnoted : t.Noted) (hwhole : ∀ r ∈ recordsOf t.history, r.Whole)
    (hhistory : history <+: t.history) (hlegible : ∀ r ∈ transcriptOf history, r.Legible) :
    ∀ r ∈ transcriptOf history, r.Clear := by
  intro r hr
  obtain ⟨rest, hrest⟩ := hhistory
  refine ⟨hlegible r hr, (hgenuine.records .transcript r ?_).oneLine hcfg, ?_⟩
  · rw [hnoted, ← hrest, transcriptOf_append]
    exact mem_append_left _ hr
  · rcases mem_append.mp hr with hr | hr
    · exact hfits r hr
    · refine (hwhole r ?_).fits
      rw [← hrest, recordsOf, filterMap_append]
      exact mem_append_left _ hr

/-- **The context is complete.**  In every interleaving of handlers that can open the log where it
matters and write their records at once, when a handler of `CONTEXT` comes at the right time, the
caller is sent the transcript from its previous grant on.  And whatever participant had been given a
grant for what it says, if that grant is in the window then what it says is, too. -/
theorem context_complete (hcfg : cfg.Loaded) (hhub : cfg.isHub = true)
    (hlogs : ∀ log, ∀ r ∈ cfg.logs log, r.Genuine cfg)
    (hfits : ∀ r ∈ cfg.logs .transcript, r.Fits) {start : Hub cfg} {restored : Name}
    (hrestored : 10 ∉ restored.bytes) (activity : Option Int) (logTime : Log → Nat)
    (hstart : start = Hub.boot cfg restored activity logTime)
    (before later : List (Act (cfg.Person × Bytes) Env)) (call : cfg.Person × Bytes)
    (hc : c = caller (start.serving before).threads.length call)
    (hcommand : c.command = some .context)
    (hrecording : System.Through streamThread (fun k i sys _ ↦ Recording k i sys.shared)
      ⟨start, []⟩ (before ++ .spawn call :: later))
    (hwhole : ∀ r ∈ recordsOf (start.served (before ++ .spawn call :: later)).history, r.Whole)
    (hpunctual : System.Through streamThread
      (fun k i sys sys' ↦ k = c.socket → Punctual c i sys sys')
      (start.serving (before ++ [.spawn call])) later)
    (hdone : (start.serving (before ++ .spawn call :: later)).Ended c.socket = true)
    (hend : Bytes.ofAscii "CONTEXT_END\n" ∈
      replies c (start.served before) (start.served (before ++ .spawn call :: later))) :
    ∃ (scanned read : List (Event cfg)) (window : List Record),
      (start.served before).history <+: scanned ∧ scanned <+: read ∧
      read <+: (start.served (before ++ .spawn call :: later)).history ∧
      window = (transcriptOf read).drop (previousGrant c.name (transcriptOf scanned)) ∧
      replies c (start.served before) (start.served (before ++ .spawn call :: later)) =
        contextReply (window.map Record.text) ∧
      ∀ a e b speech, scanned = a ++ e :: b → e.grantFor = some speech →
        previousGrant c.name (transcriptOf scanned) ≤ (transcriptOf a).length →
        ∃ r ∈ window, r.speaker = speech.1.name ∧ r.message = speech.2 := by
  have hnoted : start.Noted := by
    rw [hstart]
    exact (append_nil _).symm
  have hempty : start.history = [] := by
    rw [hstart]
    rfl
  have hthrough := composed_of_punctual hempty hrecording hpunctual
  obtain ⟨lines, htold, hread⟩ := served_of_run hhub hnoted hc hcommand hthrough hdone
  rw [htold.lines] at hend ⊢
  obtain ⟨window, hlines, scanned, read, hscanned, hbegins, hhistory, hlegible, hsettled,
    hwindow⟩ :=
    hread hend
  obtain ⟨more, rfl⟩ := hbegins
  have hgenuine := served_genuine hcfg hlogs hrestored activity logTime
    (before ++ .spawn call :: later)
  rw [← hstart] at hgenuine
  have hclean := clear_of_read hcfg hfits hgenuine htold.noted hwhole hhistory hlegible
  have hclean' : ∀ r ∈ transcriptOf scanned, r.Clear := fun r hr ↦
    hclean r (by rw [transcriptOf_append]; exact mem_append_left _ hr)
  have hname : 10 ∉ c.name.bytes := newline_not_mem hcfg c.person
  have htake : (transcriptOf scanned).take (previousGrant c.name (transcriptOf scanned)) =
      (transcriptOf (scanned ++ more)).take (previousGrant c.name (transcriptOf scanned)) := by
    rw [transcriptOf_append, take_append_of_le_length previousGrant_le]
  rw [contextStart_eq hname hclean', htake, contextLines_eq hclean] at hwindow
  refine ⟨scanned, scanned ++ more, _, hscanned, prefix_append _ _, hhistory, rfl, ?_, ?_⟩
  · rw [hlines, hwindow]
  intro a e b speech hsplit hgrant hle
  exact (hsettled speech.1).mem_window (by rw [hsplit, append_assoc, cons_append]) hgrant hle

end

namespace small

/-- The hub as it starts, with nobody having the turn. -/
def idle : Hub small := .boot small .empty none fun _ ↦ 0

/-- Bob asks for the context. -/
def asking : small.Person × Bytes := (bob, Bytes.ofAscii "CONTEXT\n")

/-- The handler gets to its end. -/
def answered : List (Act (small.Person × Bytes) Env) := List.replicate 12 (.advance 2 noon)

/-- Bob is online, and alice has said something; the handler has taken so many sections. -/
def speaking (sections : Nat) : List (Act (small.Person × Bytes) Env) :=
  (session "hello").take (6 + sections)

end small

/-- Alice has said something, the turn is bob's, and bob asks for the context. -/
theorem context_complete_hello : ∃ (scanned read : List (Event small)) (window : List Record),
    (small.idle.served (small.speaking 20)).history <+: scanned ∧
    window = (transcriptOf read).drop
      (previousGrant (small.contact small.bob).name (transcriptOf scanned)) ∧
    replies (caller 2 small.asking) (small.idle.served (small.speaking 20))
      (small.idle.served (small.speaking 20 ++ .spawn small.asking :: small.answered)) =
        contextReply (window.map Record.text) ∧
    ∀ a e b speech, scanned = a ++ e :: b → e.grantFor = some speech →
      previousGrant (small.contact small.bob).name (transcriptOf scanned) ≤
        (transcriptOf a).length →
      ∃ r ∈ window, r.speaker = speech.1.name ∧ r.message = speech.2 := by
  have hlogs : ∀ log, ∀ r ∈ small.logs log, r.Genuine small := by
    intro log r hr
    cases hr
  obtain ⟨scanned, read, window, hscanned, -, -, hwindow, hreplies, hspeech⟩ :=
    context_complete small.loaded rfl hlogs nofun (c := caller 2 small.asking)
      (show 10 ∉ Name.empty.bytes by decide) none (fun _ ↦ 0)
      (show small.idle = .boot small .empty none fun _ ↦ 0 from rfl) (small.speaking 20)
      small.answered small.asking (by decide +kernel) rfl (by decide +kernel) (by decide +kernel)
      (by decide +kernel) (by decide +kernel) (by decide +kernel)
  exact ⟨scanned, read, window, hscanned, hwindow, hreplies, hspeech⟩

/-- **The context lacks the message.**  Alice has said something and the grant for bob is in the
transcript.  Bob asks for the context before the message is, and what bob is sent is the grant. -/
theorem context_without_message :
    (∃ e ∈ (small.idle.served (small.speaking 6)).history,
      e.grantFor = some (caller 1 (small.alice, Bytes.ofAscii "SAY hello\n"),
        Bytes.ofAscii "hello")) ∧
    (∀ r ∈ (small.idle.served (small.speaking 6 ++ .spawn small.asking :: small.answered)).records
      .transcript, r.Legible ∧ r.Whole) ∧
    replies (caller 2 small.asking) (small.idle.served (small.speaking 6))
      (small.idle.served (small.speaking 6 ++ .spawn small.asking :: small.answered)) =
        contextReply [Record.text ⟨43200, small.name, .grant,
          (small.contact small.bob).name.bytes⟩] := by
  decide +kernel

end Noobia.Council
