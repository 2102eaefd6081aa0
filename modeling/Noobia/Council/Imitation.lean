import Noobia.Council.Written

/-!
# Messages that look like grants

`transcript_last_speaker` and `transcript_stream_context` find the grants in the transcript by
looking for a word between two tabs, anywhere in what `fgets` has read.  A message with tabs in it
can have such a word, and so can what `fgets` reads of a message that is too long for its buffer.
Whoever sends the message then decides whose turn it is after a restart and what others get to see.

Here two transcripts are compared that differ in what has been said and in nothing else.
`messages_harmless_iff` says which messages have to be kept out for the service to take no notice of
the difference.
-/

open Bytes

namespace Noobia.Council

open List CString

/-! ## Two transcripts -/

/-- The records are the same but for what participants have said. -/
def SameButMessages (records records' : List Record) : Prop :=
  List.Forall₂ (fun r r' ↦ r' = r ∨ r.Speech ∧ r' = { r with message := r'.message }) records
    records'

/-- The number of the record in which a position of the file is. -/
def recordAt : List Record → Nat → Nat
  | [], _ => 0
  | r :: records, position =>
    if position < r.text.length + 1 then 0
    else recordAt records (position - (r.text.length + 1)) + 1

/-- What the service reads in the transcripts does not differ: whose turn it is, and for every
participant the record with which its window begins. -/
structure Unswayed (records records' : List Record) : Prop where
  speaker : lastSpeaker (logFile records) = lastSpeaker (logFile records')
  window : ∀ participant, recordAt records (contextStart (logFile records) participant) =
    recordAt records' (contextStart (logFile records') participant)

/-! ## Whose turn it is -/

variable {r : Record}

section

variable {records records' : List Record}

theorem lastSpeaker_same (hsame : SameButMessages records records')
    (hmute : ∀ r ∈ records, r.OneLine ∧ (r.Speech → r.Mute))
    (hmute' : ∀ r ∈ records', r.OneLine ∧ (r.Speech → r.Mute)) (speaker : Name) :
    (records.flatMap Record.pieces).foldl readSpeaker speaker =
      (records'.flatMap Record.pieces).foldl readSpeaker speaker := by
  induction hsame generalizing speaker with
  | nil => rfl
  | @cons r r' records records' h _ ih =>
    obtain ⟨hr, hrecords⟩ := forall_mem_cons.mp hmute
    obtain ⟨hr', hrecords'⟩ := forall_mem_cons.mp hmute'
    rw [flatMap_cons, flatMap_cons, foldl_append, foldl_append]
    rcases h with rfl | ⟨hspeech, h⟩
    · exact ih hrecords hrecords' _
    have hspeech' : r'.Speech := by
      rw [h]
      exact hspeech
    rw [(hr.2 hspeech).foldl hr.1, (hr'.2 hspeech').foldl hr'.1]
    exact ih hrecords hrecords' _

/-! ## Where a window begins -/

/-- Two positions are at the same place of the same record, or both at the beginning. -/
def Corresponds (records records' : List Record) (position position' : Nat) : Prop :=
  position = 0 ∧ position' = 0 ∨
    ∃ k d r, records[k]? = some r ∧ records'[k]? = some r ∧ d < r.text.length + 1 ∧
      position = (logFile (records.take k)).length + d ∧
      position' = (logFile (records'.take k)).length + d

theorem recordAt_eq {k d : Nat} (hk : records[k]? = some r) (hd : d < r.text.length + 1) :
    recordAt records ((logFile (records.take k)).length + d) = k := by
  induction records generalizing k with
  | nil => cases hk
  | cons r₀ records ih =>
    cases k with
    | zero =>
      obtain rfl := Option.some.inj hk
      simp [recordAt, logFile, hd]
    | succ k =>
      rw [take_succ_cons, logFile_cons, recordAt, if_neg (by simp; omega)]
      have hrest : (r₀.text ++ 10 :: logFile (records.take k)).length + d - (r₀.text.length + 1) =
          (logFile (records.take k)).length + d := by
        rw [length_append, length_cons]
        omega
      rw [hrest, ih hk]

theorem recordAt_zero (records : List Record) : recordAt records 0 = 0 := by
  cases records with
  | nil => rfl
  | cons r records => simp [recordAt]

theorem Corresponds.recordAt {position position' : Nat}
    (h : Corresponds records records' position position') :
    recordAt records position = recordAt records' position' := by
  rcases h with ⟨rfl, rfl⟩ | ⟨k, d, r, hk, hk', hd, rfl, rfl⟩
  · rw [recordAt_zero, recordAt_zero]
  · rw [recordAt_eq hk hd, recordAt_eq hk' hd]

theorem drop_eq_cons {k : Nat} {rest : List Record}
    (h : records.drop k = r :: rest) : records[k]? = some r ∧ records.drop (k + 1) = rest := by
  constructor
  · rw [← head?_drop, h, head?_cons]
  · rw [← tail_drop, h, tail_cons]

/-- Two scans have come to the same place and have found the same grants. -/
structure InStep (records records' : List Record) (k d : Nat) (g g' : Grants) : Prop where
  position : g.position = (logFile (records.take k)).length + d
  position' : g'.position = (logFile (records'.take k)).length + d
  previous : Corresponds records records' g.previous g'.previous
  current : Corresponds records records' g.current g'.current

namespace InStep

variable {k d : Nat} {g g' : Grants} {participant : Name}

/-- They both read a piece of a record that is the same in both transcripts. -/
theorem piece (h : InStep records records' k d g g') (hk : records[k]? = some r)
    (hk' : records'[k]? = some r) {piece : Bytes} (hroom : d + piece.length ≤ r.text.length + 1) :
    InStep records records' k (d + piece.length) (g.read participant piece)
      (g'.read participant piece) := by
  obtain ⟨hposition, hposition', hprevious, hcurrent⟩ := h
  by_cases hgrant : isGrantFor (text piece) participant = true
  · have hne : 0 < piece.length := by
      refine length_pos_iff.mpr fun hnil ↦ ?_
      rw [hnil] at hgrant
      cases hgrant
    rw [Grants.read, Grants.read, if_pos hgrant, if_pos hgrant]
    refine ⟨?_, ?_, hcurrent, .inr ⟨k, d, r, hk, hk', by omega, hposition, hposition'⟩⟩
    · dsimp only
      omega
    · dsimp only
      omega
  · rw [Grants.read, Grants.read, if_neg hgrant, if_neg hgrant]
    refine ⟨?_, ?_, hprevious, hcurrent⟩
    · dsimp only
      omega
    · dsimp only
      omega

theorem pieces (hk : records[k]? = some r) (hk' : records'[k]? = some r)
    {pieces : List Bytes} (h : InStep records records' k d g g')
    (hroom : d + pieces.flatten.length ≤ r.text.length + 1) :
    InStep records records' k (d + pieces.flatten.length)
      (pieces.foldl (Grants.read participant) g) (pieces.foldl (Grants.read participant) g') := by
  induction pieces generalizing d g g' with
  | nil => exact h
  | cons first pieces ih =>
    rw [flatten_cons, length_append] at hroom ⊢
    rw [foldl_cons, foldl_cons, ← Nat.add_assoc]
    exact ih (h.piece hk hk' (by omega)) (by omega)

theorem flatten_pieces (r : Record) : r.pieces.flatten.length = r.text.length + 1 := by
  rw [Record.pieces, Stdio.pieces, Stdio.flatten_piecesFrom, length_append,
    length_singleton]

theorem length_take_succ (hk : records[k]? = some r) :
    (logFile (records.take (k + 1))).length =
      (logFile (records.take k)).length + (r.text.length + 1) := by
  rw [take_add_one, hk, Option.toList_some, logFile_append, length_append]
  simp [logFile]

theorem record (hk : records[k]? = some r) (hk' : records'[k]? = some r)
    (h : InStep records records' k 0 g g') : InStep records records' (k + 1) 0
      (r.pieces.foldl (Grants.read participant) g)
      (r.pieces.foldl (Grants.read participant) g') := by
  have hrecord : InStep records records' k (0 + r.pieces.flatten.length)
      (r.pieces.foldl (Grants.read participant) g) (r.pieces.foldl (Grants.read participant) g') :=
    h.pieces hk hk' (by rw [flatten_pieces]; omega)
  rw [flatten_pieces] at hrecord
  refine ⟨?_, ?_, hrecord.previous, hrecord.current⟩
  · rw [hrecord.position, length_take_succ hk]
    omega
  · rw [hrecord.position', length_take_succ hk']
    omega

/-- What is passed over without anything being found. -/
theorem foldl_of_mute (hline : r.OneLine) (hmute : r.Mute) (g : Grants) :
    r.pieces.foldl (Grants.read participant) g =
      { g with position := g.position + (r.text.length + 1) } := by
  have hgrant : ∀ piece ∈ r.pieces, ¬ isGrantFor (text piece) participant = true := by
    intro piece hpiece
    rw [text_of_not_mem (Record.not_mem_of_mem_pieces hline hpiece),
      isGrantFor_of_mute (hmute piece hpiece)]
    nofun
  rw [← flatten_pieces]
  generalize r.pieces = pieces at hgrant
  induction pieces generalizing g with
  | nil => rfl
  | cons piece pieces ih =>
    obtain ⟨hpiece, hpieces⟩ := forall_mem_cons.mp hgrant
    rw [foldl_cons, ih _ hpieces, Grants.read, if_neg hpiece, flatten_cons,
      length_append]
    dsimp only
    rw [Nat.add_assoc]

theorem mute {r' : Record} (hk : records[k]? = some r) (hk' : records'[k]? = some r')
    (hr : r.OneLine ∧ r.Mute) (hr' : r'.OneLine ∧ r'.Mute) (h : InStep records records' k 0 g g') :
    InStep records records' (k + 1) 0 (r.pieces.foldl (Grants.read participant) g)
      (r'.pieces.foldl (Grants.read participant) g') := by
  rw [foldl_of_mute hr.1 hr.2, foldl_of_mute hr'.1 hr'.2]
  refine ⟨?_, ?_, h.previous, h.current⟩
  · dsimp only
    rw [h.position, length_take_succ hk]
    omega
  · dsimp only
    rw [h.position', length_take_succ hk']
    omega

/-- From where they are in step they find the same grants. -/
theorem scan {rest rest' : List Record} (hsame : SameButMessages rest rest')
    (hrest : records.drop k = rest) (hrest' : records'.drop k = rest')
    (hmute : ∀ r ∈ rest, r.OneLine ∧ (r.Speech → r.Mute))
    (hmute' : ∀ r ∈ rest', r.OneLine ∧ (r.Speech → r.Mute)) (h : InStep records records' k 0 g g') :
    Corresponds records records'
      ((rest.flatMap Record.pieces).foldl (Grants.read participant) g).previous
      ((rest'.flatMap Record.pieces).foldl (Grants.read participant) g').previous := by
  induction hsame generalizing k g g' with
  | nil => exact h.previous
  | @cons r r' rest rest' hr _ ih =>
    obtain ⟨hline, hrecords⟩ := forall_mem_cons.mp hmute
    obtain ⟨hline', hrecords'⟩ := forall_mem_cons.mp hmute'
    obtain ⟨hk, hnext⟩ := drop_eq_cons hrest
    obtain ⟨hk', hnext'⟩ := drop_eq_cons hrest'
    rw [flatMap_cons, flatMap_cons, foldl_append, foldl_append]
    rcases hr with rfl | ⟨hspeech, hr⟩
    · exact ih hnext hnext' hrecords hrecords' (h.record hk hk')
    have hspeech' : r'.Speech := by
      rw [hr]
      exact hspeech
    exact ih hnext hnext' hrecords hrecords'
      (h.mute hk hk' ⟨hline.1, hline.2 hspeech⟩ ⟨hline'.1, hline'.2 hspeech'⟩)

end InStep

/-- **Messages in which there is nothing to be found make no difference.** -/
theorem unswayed_of_mute (hsame : SameButMessages records records')
    (hmute : ∀ r ∈ records, r.OneLine ∧ (r.Speech → r.Mute))
    (hmute' : ∀ r ∈ records', r.OneLine ∧ (r.Speech → r.Mute)) : Unswayed records records' := by
  have hpieces := pieces_logFile fun r hr ↦ (hmute r hr).1
  have hpieces' := pieces_logFile fun r hr ↦ (hmute' r hr).1
  constructor
  · rw [lastSpeaker, lastSpeaker, hpieces, hpieces']
    exact lastSpeaker_same hsame hmute hmute' .empty
  · intro participant
    rw [contextStart, contextStart, hpieces, hpieces']
    have hstart : InStep records records' 0 0 ⟨0, 0, 0⟩ ⟨0, 0, 0⟩ :=
      ⟨rfl, rfl, .inl ⟨rfl, rfl⟩, .inl ⟨rfl, rfl⟩⟩
    exact (hstart.scan hsame rfl rfl hmute hmute').recordAt

end

/-! ## Records in which there is something to be found -/

/-- A piece in which there is something decides whose turn it is. -/
theorem readSpeaker_of_not_mute {piece : Bytes} (hzero : 0 ∉ piece) (h : ¬ Mute piece) :
    ∃ name, ∀ speaker, readSpeaker speaker piece = name := by
  have htext := text_of_not_mem hzero
  by_cases hend : (textAfter "\tconversation-end\t" piece).isSome = true
  · refine ⟨.empty, fun speaker ↦ ?_⟩
    rw [readSpeaker, htext, if_pos hend]
  cases hvalue : grantValue piece with
  | some value =>
    refine ⟨.snprintf ((textAfter " -> " (Stdio.chomp value)).getD (Stdio.chomp value)),
      fun speaker ↦ ?_⟩
    rw [readSpeaker, htext, if_neg hend, hvalue]
  | none =>
    -- then there is none of the words in it
    rw [grantValue, Option.map_eq_none_iff, Option.or_eq_none_iff] at hvalue
    refine absurd (fun word hword ↦ ?_) h
    refine (after_eq_none_iff (cons_ne_nil _ _)).mp ?_
    simp only [controlWords, mem_cons, not_mem_nil, or_false] at hword
    rcases hword with rfl | rfl | rfl
    · exact hvalue.1
    · exact hvalue.2
    · exact Option.not_isSome_iff_eq_none.mp hend

theorem Record.exists_hands (hline : r.OneLine) (h : ¬ r.Mute) : ∃ name, r.Hands name := by
  have hzero : ∀ piece ∈ r.pieces, 0 ∉ piece := fun _ ↦ not_mem_of_mem_pieces hline
  have hfold : (∀ piece ∈ r.pieces, Council.Mute piece) ∨
      ∃ name, ∀ speaker, r.pieces.foldl readSpeaker speaker = name := by
    generalize r.pieces = pieces at hzero
    induction pieces with
    | nil => exact .inl nofun
    | cons piece pieces ih =>
      obtain ⟨hpiece, hpieces⟩ := forall_mem_cons.mp hzero
      rcases ih hpieces with hmute | ⟨name, hname⟩
      · by_cases hfirst : Council.Mute piece
        · exact .inl (forall_mem_cons.mpr ⟨hfirst, hmute⟩)
        obtain ⟨name, hname⟩ := readSpeaker_of_not_mute hpiece hfirst
        refine .inr ⟨name, fun speaker ↦ ?_⟩
        rw [foldl_cons, hname]
        exact foldl_pieces_of_mute hpieces hmute name
      · exact .inr ⟨name, fun speaker ↦ hname _⟩
  exact hfold.resolve_left h

/-! ## Transcripts of the hub -/

theorem newline_not_mem_lastSpeaker (file : Bytes) : 10 ∉ (lastSpeaker file).bytes := by
  have hread (speaker : Name) (piece : Bytes) (h : 10 ∉ speaker.bytes) :
      10 ∉ (readSpeaker speaker piece).bytes := by
    rw [readSpeaker]
    split
    · decide
    split
    · exact h
    rename_i value _
    have hchomp : 10 ∉ Stdio.chomp value := fun h ↦ by simpa using mem_takeWhile_imp h
    intro hmem
    have hmem := takeWhile_subset _ (mem_of_mem_take hmem)
    cases harrow : textAfter " -> " (Stdio.chomp value) with
    | none =>
      rw [harrow] at hmem
      exact hchomp hmem
    | some rest =>
      rw [harrow] at hmem
      obtain ⟨i, -, rfl⟩ := Option.map_eq_some_iff.mp harrow
      exact hchomp (mem_of_mem_drop hmem)
  have hempty : 10 ∉ Name.empty.bytes := by decide
  rw [lastSpeaker]
  generalize Name.empty = speaker at hempty
  induction Stdio.pieces messageLength file generalizing speaker with
  | nil => exact hempty
  | cons piece pieces ih => exact ih _ (hread speaker piece hempty)

/-- The hub with this configuration can have produced the transcript: it was started with a log of
genuine records, and callers have sent it something. -/
def Produced (cfg : Config) (records : List Record) : Prop :=
  ∃ (logs : Log → List Record) (activity : Option Int) (logTime : Log → Nat)
    (acts : List (Act (cfg.Person × Bytes) Env)), (∀ log, ∀ r ∈ logs log, r.Genuine cfg) ∧
      records = ((Hub.boot { cfg with logs } (lastSpeaker (logFile (logs .transcript))) activity
        logTime).served acts).records .transcript

theorem Produced.genuine {cfg : Config} {records : List Record} (hcfg : cfg.Loaded)
    (h : Produced cfg records) : ∀ r ∈ records, r.Genuine cfg := by
  obtain ⟨logs, activity, logTime, acts, hlogs, rfl⟩ := h
  have hloaded : Config.Loaded { cfg with logs } := ⟨hcfg.contacts, hcfg.name⟩
  have hgenuine (r : Record) (hr : r.Genuine cfg) : r.Genuine { cfg with logs } :=
    ⟨⟨hr.speaker, hr.message⟩, hr.speech⟩
  intro r hr
  have h := (served_genuine hloaded (fun log r hr ↦ hgenuine r (hlogs log r hr))
    (newline_not_mem_lastSpeaker _) activity logTime acts).records .transcript r hr
  exact ⟨⟨h.speaker, h.message⟩, h.speech⟩

/-- A council with a single participant. -/
def alone (speaker : Name) : Config where
  name := .snprintf (Bytes.ofAscii "hub")
  isHub := true
  presenceSeconds := 60
  contacts := [⟨speaker, .human, 0⟩]
  logs _ := []

section

variable {speaker : Name}

theorem alone_contact (p : (alone speaker).Person) :
    ((alone speaker).contact p).name = speaker := by
  obtain ⟨p, hp⟩ := p
  obtain rfl : p = 0 := Nat.lt_one_iff.mp hp
  rfl

theorem alone_loaded (h : ∀ b ∈ speaker.bytes, 32 ≤ b) : (alone speaker).Loaded := by
  refine ⟨fun p ↦ ?_, ?_⟩
  · rw [alone_contact]
    exact h
  · change 10 ∉ (Name.snprintf (ofAscii "hub")).bytes
    decide

/-- The turn has been given to somebody. -/
def granting (name : Name) : Record := ⟨0, .snprintf (Bytes.ofAscii "hub"), .grant, name.bytes⟩

/-- After that the only participant has said something. -/
theorem alone_produces {name : Name} (hname : 10 ∉ name.bytes)
    (hspeaker : r.speaker = speaker) (hmessage : 0 ∉ r.message ∧ 10 ∉ r.message) :
    Produced (alone speaker) [granting name, r] := by
  refine ⟨fun log ↦ if log = .transcript then [granting name, r] else [], none, fun _ ↦ 0, [], ?_,
    rfl⟩
  intro log r' hr'
  dsimp only at hr'
  split at hr'
  · rcases mem_cons.mp hr' with rfl | hr'
    · exact genuine_of_hub (by decide) (Name.writable hname)
    · rw [mem_singleton.mp hr']
      exact ⟨⟨.inr ⟨⟨0, Nat.one_pos⟩, hspeaker⟩, hmessage⟩, fun _ ↦ ⟨⟨0, Nat.one_pos⟩, hspeaker⟩⟩
  · cases hr'

/-- If there is something to be found in a record, then there are two transcripts, one with the
record in it and the other with an empty message in its place, after which it is not the same one's
turn. -/
theorem exists_swayed (hspeech : r.Speech) (hbytes : ∀ b ∈ r.speaker.bytes, 32 ≤ b)
    (hplain : r.speaker.Plain) (hmessage : 0 ∉ r.message ∧ 10 ∉ r.message) (hmute : ¬ r.Mute) :
    ∃ name, 10 ∉ name.bytes ∧ lastSpeaker (logFile [granting name, r]) ≠
      lastSpeaker (logFile [granting name, { r with message := [] }]) := by
  have hloaded := alone_loaded hbytes
  have hgenuine {name : Name} (hname : 10 ∉ name.bytes) {r' : Record}
      (hspeaker : r'.speaker = r.speaker) (hmessage : 0 ∉ r'.message ∧ 10 ∉ r'.message) :
      ∀ x ∈ [granting name, r'], x.OneLine := fun x hx ↦
    ((alone_produces hname hspeaker hmessage).genuine hloaded x hx).oneLine hloaded
  obtain ⟨last, hlast⟩ : ∃ last, r.Hands last := by
    refine Record.exists_hands ?_ hmute
    exact hgenuine (show 10 ∉ Name.empty.bytes by decide) rfl hmessage r (by simp)
  have hempty : Record.Mute { r with message := [] } := by
    refine Record.mute_of_not_mem hplain ?_ not_mem_nil
    rcases hspeech with hevent | hevent
    · simp only [hevent]
      decide
    · simp only [hevent]
      decide
  -- whoever the record gives the turn to, there is a name that is not it
  have hswayed (name : Name) (hname : 10 ∉ name.bytes) (hne : last ≠ name)
      (hread : lastSpeaker (logFile [granting name]) = name) :
      lastSpeaker (logFile [granting name, r]) ≠
        lastSpeaker (logFile [granting name, { r with message := [] }]) := by
    have hline := hgenuine hname rfl hmessage
    have hline' : ∀ x ∈ [granting name, { r with message := [] }], x.OneLine :=
      hgenuine hname rfl ⟨not_mem_nil, not_mem_nil⟩
    rw [forall_mem_cons] at hline hline'
    have hfirst := forall_mem_singleton.mpr hline.1
    have heq := lastSpeaker_append hfirst hline.2
    have heq' := lastSpeaker_append hfirst hline'.2
    rw [flatMap_singleton, hlast] at heq
    rw [flatMap_singleton, hempty.foldl (hline'.2 _ (mem_singleton_self _)),
      hread] at heq'
    exact fun h ↦ hne (heq.symm.trans (h.trans heq'))
  by_cases ha : last = .snprintf (ofAscii "a")
  · refine ⟨.snprintf (ofAscii "b"), by decide, hswayed _ (by decide) ?_ (by decide +kernel)⟩
    rw [ha]
    decide
  · exact ⟨.snprintf (ofAscii "a"), by decide, hswayed _ (by decide) ha (by decide +kernel)⟩

end

/-- **What may be said without controlling the council.**  Suppose that only some messages are
allowed, the empty one among them.  The transcripts of the hub that differ in nothing but allowed
messages are read the same if and only if no allowed message of a speaker with an ordinary name has,
in any of the pieces in which its record is read, one of the words between two tabs that are looked
for. -/
theorem messages_harmless_iff (allowed : Record → Prop)
    (hempty : ∀ r : Record, allowed { r with message := [] }) :
    (∀ cfg : Config, cfg.Loaded → (∀ p, (cfg.contact p).name.Plain) → ∀ records records',
        Produced cfg records → Produced cfg records' → SameButMessages records records' →
        (∀ r ∈ records ++ records', r.Speech → allowed r) → Unswayed records records') ↔
      ∀ r : Record, r.Speech → (∀ b ∈ r.speaker.bytes, 32 ≤ b) → r.speaker.Plain →
        0 ∉ r.message ∧ 10 ∉ r.message → allowed r → r.Mute := by
  constructor
  · intro h r hspeech hbytes hplain hmessage hallowed
    by_contra hmute
    obtain ⟨name, hname, hne⟩ := exists_swayed hspeech hbytes hplain hmessage hmute
    have hplain' (p : (alone r.speaker).Person) : ((alone r.speaker).contact p).name.Plain := by
      rw [alone_contact]
      exact hplain
    have hproduced := alone_produces hname rfl hmessage
    have hproduced' : Produced (alone r.speaker) [granting name, { r with message := [] }] :=
      alone_produces hname rfl ⟨not_mem_nil, not_mem_nil⟩
    have hsame : SameButMessages [granting name, r] [granting name, { r with message := [] }] :=
      .cons (.inl rfl) (.cons (.inr ⟨hspeech, rfl⟩) .nil)
    refine hne (h _ (alone_loaded hbytes) hplain' _ _ hproduced hproduced' hsame ?_).speaker
    · intro r' hr' hspeech'
      simp only [cons_append, nil_append, mem_cons, not_mem_nil,
        or_false] at hr'
      rcases hr' with rfl | rfl | rfl | rfl
      · simp [granting, Record.Speech] at hspeech'
      · exact hallowed
      · simp [granting, Record.Speech] at hspeech'
      · exact hempty r
  · intro h cfg hcfg hplain records records' hproduced hproduced' hsame hallowed
    have hmute (r : Record) (hr : r.Genuine cfg) (hmem : r ∈ records ++ records') :
        r.OneLine ∧ (r.Speech → r.Mute) := by
      refine ⟨hr.oneLine hcfg, fun hspeech ↦ ?_⟩
      obtain ⟨p, hp⟩ := hr.speech hspeech
      exact h r hspeech (hp ▸ hcfg.contacts p) (hp ▸ hplain p) hr.message
        (hallowed r hmem hspeech)
    exact unswayed_of_mute hsame
      (fun r hr ↦ hmute r (hproduced.genuine hcfg r hr) (mem_append_left _ hr))
      (fun r hr ↦ hmute r (hproduced'.genuine hcfg r hr) (mem_append_right _ hr))

/-- Messages without a tab in them are harmless. -/
theorem messages_harmless_without_tabs :
    (∀ r : Record, r.Speech → (∀ b ∈ r.speaker.bytes, 32 ≤ b) → r.speaker.Plain →
      0 ∉ r.message ∧ 10 ∉ r.message → 9 ∉ r.message → r.Mute) ∧
    ∀ cfg : Config, cfg.Loaded → (∀ p, (cfg.contact p).name.Plain) → ∀ records records',
      Produced cfg records → Produced cfg records' → SameButMessages records records' →
      (∀ r ∈ records ++ records', r.Speech → 9 ∉ r.message) → Unswayed records records' := by
  have hmute (r : Record) (hspeech : r.Speech) (_ : ∀ b ∈ r.speaker.bytes, 32 ≤ b)
      (hplain : r.speaker.Plain) (_ : 0 ∉ r.message ∧ 10 ∉ r.message) (htab : 9 ∉ r.message) :
      r.Mute := by
    refine Record.mute_of_not_mem hplain ?_ htab
    rcases hspeech with hevent | hevent
    · rw [hevent]
      decide
    · rw [hevent]
      decide
  exact ⟨hmute, (messages_harmless_iff (fun r ↦ 9 ∉ r.message) fun _ ↦ not_mem_nil).mpr hmute⟩

namespace small

/-- The hub gives the turn to bob and writes down what alice has said. -/
def minutes (message : String) : List Record :=
  [⟨43200, small.name, .grant, (small.contact bob).name.bytes⟩,
    ⟨43200, (small.contact alice).name, .message, Bytes.ofAscii message⟩]

end small

/-- **A message passes for a grant.**  Alice says one thing or the other, and the hub gives the turn
to bob.  If what alice says ends in a grant to carol the transcript says that it is carol's turn. -/
theorem message_imitates_grant : Produced small (small.minutes "hello") ∧
    Produced small (small.minutes "hello\tgrant\tcarol") ∧
    SameButMessages (small.minutes "hello") (small.minutes "hello\tgrant\tcarol") ∧
    lastSpeaker (logFile (small.minutes "hello")) = (small.contact small.bob).name ∧
    lastSpeaker (logFile (small.minutes "hello\tgrant\tcarol")) =
      (small.contact small.carol).name := by
  refine ⟨⟨fun _ ↦ [], none, fun _ ↦ 0, small.session "hello", nofun, by decide +kernel⟩,
    ⟨fun _ ↦ [], none, fun _ ↦ 0, small.session "hello\tgrant\tcarol", nofun, by decide +kernel⟩,
    .cons (.inl rfl) (.cons (.inr ⟨.inl rfl, rfl⟩) .nil), by decide +kernel, by decide +kernel⟩

end Noobia.Council
