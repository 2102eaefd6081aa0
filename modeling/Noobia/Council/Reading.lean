import Noobia.Council.Hub
import Noobia.Lib.Digits

/-!
# Reading a log back

A record is one line of a log if there is no newline in it, and then `fgets` finds it again: the
pieces of a log are the pieces of its records, one record after the other, and a record whose line
fits the buffer is one piece.  A longer one is not, and what comes after its first piece looks like
a record to whoever reads it.

`Record.Written` is what can be said of the records the service writes; `Config.Loaded` what
`contact_book_load` and `service_config_load` see to.
-/

namespace Noobia.Council

open List Bytes

/-! ## Numbers and dates -/

variable {b : UInt8}

theorem mem_decimal {n : Nat} (h : b ∈ decimal n) : 48 ≤ b ∧ b ≤ 57 := by
  have hrange := (isDigit_iff b).mp (isDigit_of_mem_ofNat h)
  exact ⟨UInt8.le_iff_toNat_le.mpr hrange.1, UInt8.le_iff_toNat_le.mpr hrange.2⟩

theorem mem_twoDigits {n : Nat} (h : b ∈ twoDigits n) : 48 ≤ b ∧ b ≤ 57 := by
  have hdigit (m : Nat) : 48 ≤ UInt8.ofNat (48 + m % 10) ∧ UInt8.ofNat (48 + m % 10) ≤ 57 := by
    have hsmall : (48 + m % 10) % 256 = 48 + m % 10 := Nat.mod_eq_of_lt (by omega)
    constructor
    · rw [UInt8.le_iff_toNat_le, UInt8.toNat_ofNat', hsmall]
      exact Nat.le_add_right 48 _
    · rw [UInt8.le_iff_toNat_le, UInt8.toNat_ofNat', hsmall]
      change 48 + m % 10 ≤ 57
      omega
  simp only [twoDigits, mem_cons, not_mem_nil, or_false] at h
  rcases h with rfl | rfl
  · exact hdigit (n / 10)
  · exact hdigit n

/-- There is nothing in a date but digits, hyphens, colons and the letters `T` and `Z`. -/
theorem mem_dateText {now : Nat} (h : b ∈ dateText now) : 45 ≤ b ∧ b ≤ 90 := by
  have hdigit (h : 48 ≤ b ∧ b ≤ 57) : 45 ≤ b ∧ b ≤ 90 :=
    ⟨UInt8.le_trans (by decide) h.1, UInt8.le_trans h.2 (by decide)⟩
  simp only [dateText, mem_append, mem_singleton] at h
  rcases h with (((((((((((h | rfl) | h) | rfl) | h) | rfl) | h) | rfl) | h) | rfl) | h) | rfl)
  · exact hdigit (mem_decimal h)
  · decide
  · exact hdigit (mem_twoDigits h)
  · decide
  · exact hdigit (mem_twoDigits h)
  · decide
  · exact hdigit (mem_twoDigits h)
  · decide
  · exact hdigit (mem_twoDigits h)
  · decide
  · exact hdigit (mem_twoDigits h)
  · decide

/-! ## Texts -/

/-- None of these bytes is in a text. -/
def Without (bad text : Bytes) : Prop := ∀ b ∈ bad, b ∉ text
  deriving Decidable

section

variable {bad text text' : Bytes}

theorem Without.append (h : Without bad text) (h' : Without bad text') :
    Without bad (text ++ text') :=
  fun b hb hmem ↦ (mem_append.mp hmem).elim (h b hb) (h' b hb)

theorem Without.of_subset (h : Without bad text) (hsub : text' ⊆ text) : Without bad text' :=
  fun b hb hmem ↦ h b hb (hsub hmem)

theorem Without.mono {bad' : Bytes} (h : Without bad text) (hsub : bad' ⊆ bad) :
    Without bad' text :=
  fun b hb ↦ h b (hsub hb)

variable (hbad : bad ⊆ [0, 9, 10])

include hbad

/-- In the texts of the program there is none of the bytes that structure a log. -/
theorem without_ascii {line : String} (h : Without [0, 9, 10] (ofAscii line)) :
    Without bad (ofAscii line) :=
  h.mono hbad

theorem without_decimal (n : Nat) : Without bad (decimal n) := by
  intro b hb hmem
  have hlow : ∀ b ∈ ([0, 9, 10] : Bytes), ¬ 48 ≤ b := by decide
  exact hlow b (hbad hb) (mem_decimal hmem).1

theorem without_unanimous (id : Nat) : Without bad
    (ofAscii "proposal=" ++ decimal id ++ ofAscii " unanimous") :=
  ((without_ascii hbad (by decide)).append (without_decimal hbad id)).append
    (without_ascii hbad (by decide))

theorem without_proposal {reason : Bytes} (h : Without bad reason) (id : Nat) : Without bad
    (ofAscii "proposal=" ++ decimal id ++ ofAscii " reason=" ++
      (if reason.isEmpty then ofAscii "conversation appears complete" else reason).take
        (messageLength - 48)) := by
  refine (((without_ascii hbad (by decide)).append (without_decimal hbad id)).append
    (without_ascii hbad (by decide))).append (.of_subset ?_ (take_subset _ _))
  split
  · exact without_ascii hbad (by decide)
  · exact h

theorem without_vote {reason : Bytes} (h : Without bad reason) (id : Nat) (close : Bool) :
    Without bad (ofAscii "proposal=" ++ decimal id ++
      ofAscii (if close then " vote=close" else " vote=continue") ++
      ofAscii " reason=" ++ reason.take (messageLength - 80)) := by
  refine ((((without_ascii hbad (by decide)).append (without_decimal hbad id)).append ?_).append
    (without_ascii hbad (by decide))).append (h.of_subset (take_subset _ _))
  cases close with
  | true | false => exact without_ascii hbad (by decide)

theorem without_voteReason {vote : Bytes} (h : Without bad vote) (close : Bool) :
    Without bad (voteReason vote close) := by
  rw [voteReason]
  split
  · rename_i reason hrest
    have hsuffix := dropWhile_suffix (fun b ↦ decide (b ≠ 32)) (l := vote)
    rw [hrest] at hsuffix
    exact h.of_subset fun b hb ↦ hsuffix.subset (mem_cons_of_mem _ hb)
  · cases close with
    | true => exact without_ascii hbad (by decide)
    | false => exact fun _ _ ↦ not_mem_nil

end

/-! ## Records -/

/-- A contact book and a configuration as they are loaded. -/
structure Config.Loaded (cfg : Config) : Prop where
  /-- `json_string` takes no byte below 32. -/
  contacts : ∀ p, ∀ b ∈ (cfg.contact p).name.bytes, 32 ≤ b
  /-- The name of the service is on one line of its configuration. -/
  name : 10 ∉ cfg.name.bytes

/-- What can be said of every record the service writes. -/
structure Record.Written (cfg : Config) (r : Record) : Prop where
  speaker : r.speaker = cfg.name ∨ ∃ p, r.speaker = (cfg.contact p).name
  message : 0 ∉ r.message ∧ 10 ∉ r.message

/-- A record is one line. -/
def Record.OneLine (r : Record) : Prop := 0 ∉ r.text ∧ 10 ∉ r.text
  deriving Decidable

theorem LogEvent.mem_text {event : LogEvent} (h : b ∈ event.text) : 45 ≤ b ∧ b ≤ 122 := by
  revert b
  cases event <;> decide

theorem Record.mem_text {r : Record} (hb : b < 45) (h : b ∈ r.text) :
    b = 9 ∨ b ∈ r.speaker.bytes ∨ b ∈ r.message := by
  have hlow : ¬ 45 ≤ b := UInt8.not_le.mpr hb
  simp only [Record.text, mem_append, mem_singleton] at h
  rcases h with (((((h | h) | h) | h) | h) | h) | h
  · exact absurd (mem_dateText h).1 hlow
  · exact .inl h
  · exact .inr (.inl h)
  · exact .inl h
  · exact absurd (LogEvent.mem_text h).1 hlow
  · exact .inl h
  · exact .inr (.inr h)

/-- **Every record the service writes is one line.** -/
theorem Record.Written.oneLine {cfg : Config} {r : Record} (hcfg : cfg.Loaded)
    (h : r.Written cfg) : r.OneLine := by
  have hspeaker : 10 ∉ r.speaker.bytes := by
    rcases h.speaker with hs | ⟨p, hs⟩
    · rw [hs]
      exact hcfg.name
    · rw [hs]
      exact fun hb ↦ absurd (hcfg.contacts p 10 hb) (by decide)
  constructor
  · intro hb
    rcases Record.mem_text (by decide) hb with hb | hb | hb
    · exact absurd hb (by decide)
    · exact r.speaker.ne_zero 0 hb rfl
    · exact h.message.1 hb
  · intro hb
    rcases Record.mem_text (by decide) hb with hb | hb | hb
    · exact absurd hb (by decide)
    · exact hspeaker hb
    · exact h.message.2 hb

/-! ## Pieces -/

/-- The pieces of the line of a record. -/
def Record.pieces (r : Record) : List Bytes := Stdio.pieces messageLength (r.text ++ [10])

/-- The line of the record fits the buffer of `fgets`. -/
def Record.Fits (r : Record) : Prop := r.text.length + 1 < messageLength
  deriving Decidable

theorem logFile_cons (r : Record) (records : List Record) :
    logFile (r :: records) = r.text ++ 10 :: logFile records := by
  simp [logFile]

theorem logFile_append (records records' : List Record) :
    logFile (records ++ records') = logFile records ++ logFile records' :=
  flatMap_append

variable {records : List Record}

/-- **The pieces of a log are those of its records.** -/
theorem pieces_logFile (h : ∀ r ∈ records, r.OneLine) :
    Stdio.pieces messageLength (logFile records) = records.flatMap Record.pieces := by
  induction records with
  | nil => rfl
  | cons r records ih =>
    obtain ⟨hr, hrecords⟩ := forall_mem_cons.mp h
    rw [logFile_cons, Stdio.pieces_append _ hr.2, ih hrecords, flatMap_cons, Record.pieces]

theorem Record.pieces_ne_nil (r : Record) : r.pieces ≠ [] :=
  Stdio.piecesFrom_ne_nil _ _ (by simp)

theorem Record.pieces_of_fits {r : Record} (hline : r.OneLine) (hfits : r.Fits) :
    r.pieces = [r.text ++ [10]] :=
  Stdio.piecesFrom_of_length_lt _ hline.2 (by rw [Record.Fits] at hfits; omega)

theorem Record.two_le_length_pieces {r : Record} (hline : r.OneLine) (hfits : ¬ r.Fits) :
    2 ≤ r.pieces.length := by
  refine Stdio.two_le_length_piecesFrom _ hline.2 (by decide) ?_
  rw [Record.Fits] at hfits
  omega

/-! ## Words between tabs -/

/-- The events that `transcript_last_speaker` and `transcript_stream_context` look for. -/
def controlWords : List Bytes :=
  [Bytes.ofAscii "grant", Bytes.ofAscii "offline-grant", Bytes.ofAscii "conversation-end"]

/-- What they look for is a word between two tabs. -/
def betweenTabs (word : Bytes) : Bytes := 9 :: (word ++ [9])

variable {word : Bytes}

theorem not_mem_of_controlWords (h : word ∈ controlWords) : 9 ∉ word := by
  revert word
  decide

/-- There is nothing in a piece that they look for. -/
def Mute (piece : Bytes) : Prop := ∀ word ∈ controlWords, ¬ betweenTabs word <:+: piece
  deriving Decidable

variable {piece : Bytes}

theorem Mute.textAfter (h : Mute piece) :
    textAfter "\tgrant\t" piece = none ∧ textAfter "\toffline-grant\t" piece = none ∧
      textAfter "\tconversation-end\t" piece = none := by
  have hword (word : Bytes) (hword : word ∈ controlWords) :
      CString.after (betweenTabs word) piece = none :=
    (CString.after_eq_none_iff (cons_ne_nil _ _)).mpr (h word hword)
  exact ⟨hword (ofAscii "grant") (by decide),
    hword (ofAscii "offline-grant") (by decide),
    hword (ofAscii "conversation-end") (by decide)⟩

/-- A piece in which there is nothing does not change whose turn it is. -/
theorem readSpeaker_of_mute (hzero : 0 ∉ piece) (h : Mute piece) (speaker : Name) :
    readSpeaker speaker piece = speaker := by
  have htext := CString.text_of_not_mem hzero
  obtain ⟨hgrant, hoffline, hend⟩ := h.textAfter
  simp only [readSpeaker, grantValue, htext, hgrant, hoffline, hend]
  rfl

theorem isGrantFor_of_mute (h : Mute piece) (participant : Name) :
    isGrantFor piece participant = false := by
  obtain ⟨hgrant, hoffline, -⟩ := h.textAfter
  simp only [isGrantFor, grantValue, hgrant, hoffline]
  rfl

/-- A word between tabs is the speaker, the event, or in the message. -/
theorem after_record (hword : 9 ∉ word) {r : Record}
    (hspeaker : 9 ∉ r.speaker.bytes) (tail : Bytes) :
    CString.after (betweenTabs word) (r.text ++ tail) =
      if r.speaker.bytes = word then some (r.event.text ++ 9 :: (r.message ++ tail))
      else if r.event.text = word then some (r.message ++ tail)
      else CString.after (betweenTabs word) (9 :: (r.message ++ tail)) := by
  have hdate : 9 ∉ dateText r.stamp := fun h ↦ absurd (mem_dateText h).1 (by decide)
  have hevent : 9 ∉ r.event.text := fun h ↦ absurd (LogEvent.mem_text h).1 (by decide)
  have htext : r.text ++ tail = dateText r.stamp ++ 9 :: (r.speaker.bytes ++ 9 ::
      (r.event.text ++ 9 :: (r.message ++ tail))) := by simp [Record.text]
  rw [htext, betweenTabs, CString.after_append_of_not_mem hdate, CString.after_field hword hspeaker,
    CString.after_field hword hevent]

theorem Record.infix_of_mem_pieces {r : Record} (h : piece ∈ r.pieces) :
    piece <:+: r.text ++ [10] := by
  have hflatten := Stdio.flatten_piecesFrom messageLength (messageLength - 1) (r.text ++ [10])
  obtain ⟨before, later, hsplit⟩ := append_of_mem h
  refine ⟨before.flatten, later.flatten, ?_⟩
  rw [← hflatten]
  change _ = r.pieces.flatten
  rw [hsplit]
  simp

/-- There is nothing to be found in any piece of a record. -/
def Record.Mute (r : Record) : Prop := ∀ piece ∈ r.pieces, Council.Mute piece

/-- The name of a speaker is not one of the words. -/
def Name.Plain (name : Name) : Prop := 9 ∉ name.bytes ∧ name.bytes ∉ controlWords
  deriving Decidable

/-- A record has nothing to be found in it if neither its speaker nor its event is one of the words
and there is no tab in its message. -/
theorem Record.mute_of_not_mem {r : Record} (hspeaker : r.speaker.Plain)
    (hevent : r.event.text ∉ controlWords) (hmessage : 9 ∉ r.message) : r.Mute := by
  intro piece hpiece word hword hinfix
  have hline : betweenTabs word <:+: r.text ++ [10] := hinfix.trans (infix_of_mem_pieces hpiece)
  refine absurd hline ((CString.after_eq_none_iff (cons_ne_nil _ _)).mp ?_)
  have hne : r.speaker.bytes ≠ word := fun h ↦ hspeaker.2 (h ▸ hword)
  have hne' : r.event.text ≠ word := fun h ↦ hevent (h ▸ hword)
  rw [← betweenTabs, after_record (not_mem_of_controlWords hword) hspeaker.1, if_neg hne,
    if_neg hne']
  refine CString.after_last_field (fun h ↦ ?_) word
  simp [hmessage] at h

theorem small.loaded : small.Loaded := ⟨by decide +kernel, by decide +kernel⟩

/-! ## Grants -/

/-- In a record without a tab too many a word is found if it is the event. -/
theorem after_line (hword : word ∈ controlWords) {r : Record}
    (hspeaker : r.speaker.Plain) (hmessage : 9 ∉ r.message) :
    CString.after (betweenTabs word) (r.text ++ [10]) =
      if r.event.text = word then some (r.message ++ [10]) else none := by
  have hne : r.speaker.bytes ≠ word := fun h ↦ hspeaker.2 (h ▸ hword)
  have hlast : CString.after (betweenTabs word) (9 :: (r.message ++ [10])) = none :=
    CString.after_last_field (by simpa using hmessage) word
  rw [after_record (not_mem_of_controlWords hword) hspeaker.1, if_neg hne, hlast]

/-- The text of such a record looks like a grant if that is what the record is. -/
theorem grantValue_line {r : Record} (hspeaker : r.speaker.Plain) (hmessage : 9 ∉ r.message) :
    grantValue (r.text ++ [10]) =
      match r.event with
      | .grant => some (r.message ++ [10])
      | .offlineGrant =>
        some ((textAfter " -> " (r.message ++ [10])).getD (r.message ++ [10]))
      | _ => none := by
  have hgrant : textAfter "\tgrant\t" (r.text ++ [10]) = _ :=
    after_line (show ofAscii "grant" ∈ controlWords by decide) hspeaker hmessage
  have hoffline : textAfter "\toffline-grant\t" (r.text ++ [10]) = _ :=
    after_line (show ofAscii "offline-grant" ∈ controlWords by decide) hspeaker hmessage
  rw [grantValue, hgrant, hoffline]
  cases r.event <;> rfl

/-- A name that can be told from what stands around it in a grant. -/
structure Name.Clear (name : Name) : Prop where
  line : 9 ∉ name.bytes ∧ 10 ∉ name.bytes ∧ 13 ∉ name.bytes
  arrow : ¬ Bytes.ofAscii " ->" <:+: name.bytes

theorem after_arrow {name : Bytes} (h : ¬ ofAscii " ->" <:+: name) (rest : Bytes) :
    textAfter " -> " (name ++ ofAscii " -> " ++ rest) = some rest := by
  have harrow : ofAscii " -> " = [32, 45, 62, 32] := by decide
  have hshort : ofAscii " ->" = [32, 45, 62] := by decide
  rw [textAfter, harrow]
  rw [hshort] at h
  induction name with
  | nil => simp [CString.after_cons, List.isPrefixOf]
  | cons b name ih =>
    obtain ⟨hhere, hlater⟩ := not_or.mp (mt infix_cons_iff.mpr h)
    rw [cons_append, cons_append, CString.after_cons, if_neg, ih hlater]
    -- an arrow that began here would have to end in the name
    intro hstart
    rcases name with _ | ⟨b₁, _ | ⟨b₂, name⟩⟩
    · simp [List.isPrefixOf] at hstart
    · simp [List.isPrefixOf] at hstart
    have hfront := isPrefixOf_iff_prefix.mp hstart
    simp only [cons_append, cons_prefix_cons] at hfront
    obtain ⟨rfl, rfl, rfl, -⟩ := hfront
    exact hhere ⟨name, rfl⟩

theorem Name.Clear.after {name : Name} (h : name.Clear) : textAfter " -> " name.bytes = none := by
  rw [textAfter, CString.after_eq_none_iff (by decide)]
  exact fun hinfix ↦ h.arrow (.trans ⟨[], [32], rfl⟩ hinfix)

theorem Name.Clear.chomp {name : Name} (h : name.Clear) :
    Stdio.chomp (name.bytes ++ [10]) = name.bytes :=
  (Stdio.chomp_append_newline (fun hzero ↦ name.ne_zero 0 hzero rfl) h.line.2.1).mpr h.line.2.2

/-! ## Whose turn it is -/

theorem Record.text_line {r : Record} (h : r.OneLine) :
    CString.text (r.text ++ [10]) = r.text ++ [10] := CString.text_append h.1 [10]

/-- There is no zero byte in the pieces of a record. -/
theorem Record.not_mem_of_mem_pieces {r : Record} (hline : r.OneLine)
    (hpiece : piece ∈ r.pieces) : 0 ∉ piece := by
  intro hzero
  rcases mem_append.mp ((infix_of_mem_pieces hpiece).subset hzero) with hzero | hzero
  · exact hline.1 hzero
  · simp at hzero

/-- Whoever had the turn before, after this record it is this one's. -/
def Record.Hands (r : Record) (name : Name) : Prop :=
  ∀ speaker, r.pieces.foldl readSpeaker speaker = name

theorem foldl_pieces_of_mute {pieces : List Bytes} (hzero : ∀ piece ∈ pieces, 0 ∉ piece)
    (hmute : ∀ piece ∈ pieces, Mute piece) (speaker : Name) :
    pieces.foldl readSpeaker speaker = speaker := by
  induction pieces with
  | nil => rfl
  | cons piece pieces ih =>
    obtain ⟨hpiece, hpieces⟩ := forall_mem_cons.mp hmute
    obtain ⟨hzero, hzeros⟩ := forall_mem_cons.mp hzero
    rw [foldl_cons, readSpeaker_of_mute hzero hpiece, ih hzeros hpieces]

/-- A record in which there is nothing to be found leaves the turn where it is. -/
theorem Record.Mute.foldl {r : Record} (h : r.Mute) (hline : r.OneLine) (speaker : Name) :
    r.pieces.foldl readSpeaker speaker = speaker :=
  foldl_pieces_of_mute (fun _ ↦ not_mem_of_mem_pieces hline) h speaker

theorem foldl_of_mute (h : ∀ r ∈ records, r.OneLine ∧ r.Mute)
    (speaker : Name) : (records.flatMap Record.pieces).foldl readSpeaker speaker = speaker := by
  induction records with
  | nil => rfl
  | cons r records ih =>
    obtain ⟨hr, hrecords⟩ := forall_mem_cons.mp h
    rw [flatMap_cons, foldl_append, hr.2.foldl hr.1, ih hrecords]

/-- The transcript is read from its beginning to its end. -/
theorem lastSpeaker_append {new : List Record} (hrecords : ∀ r ∈ records, r.OneLine)
    (hnew : ∀ r ∈ new, r.OneLine) : lastSpeaker (logFile (records ++ new)) =
      (new.flatMap Record.pieces).foldl readSpeaker (lastSpeaker (logFile records)) := by
  have hall : ∀ r ∈ records ++ new, r.OneLine := fun r hr ↦
    (mem_append.mp hr).elim (hrecords r) (hnew r)
  rw [lastSpeaker, lastSpeaker, pieces_logFile hall, pieces_logFile hrecords, flatMap_append,
    foldl_append]

end Noobia.Council
