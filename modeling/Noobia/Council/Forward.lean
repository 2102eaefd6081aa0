import Noobia.Council.Identity
import Noobia.Council.Receive
import Noobia.Council.Round
import Noobia.Lib.Digits

/-!
# A file on its way to an AI

A human who has the turn sends a file to the hub (`FILE`), with the name of an AI.  The hub stores
it and then calls the service of that AI and passes the file on (`STORE`), and only when the AI has
it too does the human get the answer `STORED`.

`fileTransfer` follows one file through both services.  `outbound_recognised_iff` says what it takes
for the file to arrive: nothing may be in its way at either of them, and the AI must recognise the
hub.  The hub calls with the key of the AI and not with its own, so the AI does not
(`file_not_taken`).
-/

namespace Noobia.Council

open List Bytes

open Routine

/-! ## The two services -/

/-- What the line of either command says. -/
structure FileHeader where
  /-- To whom, or from whom. -/
  person : Bytes
  name : Bytes
  size : Nat
  digest : Bytes
  deriving DecidableEq

/-- `sscanf(line, "%63s %127s %llu %64s", …)`. -/
def scanHeader (line : Bytes) : Option FileHeader := do
  let (person, line) ← CString.scanWord 63 line
  let (name, line) ← CString.scanWord 127 line
  let (size, line) ← CString.scanUnsigned line
  let (digest, _) ← CString.scanWord 64 line
  return ⟨person, name, size, digest⟩

/-- A service as far as it stores files. -/
structure Storage where
  maxFileBytes : Nat
  filesDirectory : Bytes
  attempt : Attempt
  files : Files Bytes UInt8

/-- The call of `file_transfer_receive_stream`. -/
def Storage.receive (storage : Storage) (header : FileHeader) (segments : List Bytes) :
    Received × Files Bytes UInt8 :=
  receiveStream storage.attempt storage.filesDirectory header.name header.size header.digest 1024
    segments storage.files

/-- How the `STORE` command ends. -/
def storeTransfer (storage : Storage) (line : Bytes) (segments : List Bytes) : Transfer :=
  match scanHeader (line.drop 6) with
  | none => .header
  | some header =>
    if storage.maxFileBytes < header.size then .tooLarge
    else
      match (storage.receive header segments).1 with
      | .mismatch => .digest
      | .failed => .store
      | .stored _ => .stored

/-- What the caller is told, for each way a command can end. -/
def Transfer.lines : Transfer → List Bytes
  | header => [Bytes.ofAscii "ERROR FILE_HEADER\n"]
  | tooLarge => [Bytes.ofAscii "ERROR FILE_TOO_LARGE\n"]
  | targetUnknown => [Bytes.ofAscii "ERROR TARGET_UNKNOWN\n"]
  | hungUp => [Bytes.ofAscii "READY\n"]
  | digest => [Bytes.ofAscii "READY\n", Bytes.ofAscii "ERROR FILE_DIGEST\n"]
  | store => [Bytes.ofAscii "READY\n", Bytes.ofAscii "ERROR FILE_STORE\n"]
  | targetOffline => [Bytes.ofAscii "READY\n", Bytes.ofAscii "ERROR TARGET_OFFLINE\n"]
  | stored => [Bytes.ofAscii "READY\n", Bytes.ofAscii "STORED\n"]

/-- The service of an AI that can be called.  What is sent to it arrives in segments. -/
structure Peer where
  storage : Storage
  segments : Bytes → List Bytes
  arrived_segments : ∀ data, Socket.arrived (segments data) = data

section

variable {cfg : Config} (keys : cfg.Person → Key)

/-- What the peer answers to a command, `person` being whom it takes the caller for and `data` what
it is sent then. -/
def Peer.answers (peer : Peer) (person : cfg.Person) (command data : Bytes) : List Bytes :=
  match networkReadLine messageLength command with
  | none => []
  | some (line, _) =>
    if (cfg.contact person).role ≠ .ai then [Bytes.ofAscii "ERROR AI_STORE_ONLY\n"]
    else (storeTransfer peer.storage (CString.text line) (peer.segments data)).lines

/-- The command of `file_transfer_forward`, in a buffer of 512 bytes. -/
def storeCommandLine (sender : Name) (header : FileHeader) : Bytes :=
  (Bytes.ofAscii "STORE " ++ sender.bytes ++ [32] ++ header.name ++ [32] ++ decimal header.size ++
    [32] ++ header.digest ++ [10]).take 511

/-- `file_transfer_forward` is content with the answers: the peer is ready, the file can be read and
the peer has stored it. -/
def confirmed (answers : Bytes) (readable : Bool) : Bool :=
  match networkReadLine 128 answers with
  | none => false
  | some (reply, rest) =>
    CString.text reply = Bytes.ofAscii "READY" && readable &&
      (networkReadLine 128 rest).any fun (reply, _) ↦ CString.text reply = Bytes.ofAscii "STORED"

/-- `file_transfer_forward`. -/
def forward (nonce : Bytes) (peer : Option Peer) (target : cfg.Person) (sender : Name)
    (header : FileHeader) (path : Bytes) (files : Files Bytes UInt8) : Bool :=
  match peer, authenticates keys target .file nonce with
  | some peer, some person =>
    confirmed (peer.answers person (storeCommandLine sender header) ((files path).getD [])).flatten
      (files path).isSome
  | _, _ => false

/-- How the `FILE` command of a human who has the turn ends. -/
def fileTransfer (nonce : Bytes) (peers : cfg.Person → Option Peer) (storage : Storage)
    (sender : Name) (line : Bytes) (segments : List Bytes) : Transfer :=
  match scanHeader (line.drop 5) with
  | none => .header
  | some header =>
    if storage.maxFileBytes < header.size then .tooLarge
    else
      match (cfg.find (.snprintf header.person)).filter fun p ↦ (cfg.contact p).role = .ai with
      | none => .targetUnknown
      | some target =>
        match storage.receive header segments with
        | (.mismatch, _) => .digest
        | (.failed, _) => .store
        | (.stored path, files) =>
          if forward keys nonce (peers target) target sender header path files then .stored
          else .targetOffline

end

/-! ## What the caller is told -/

section

variable {cfg : Config} {c : Connection cfg} {T : Env → Hub cfg → Hub cfg → Prop}

theorem reply_replied (line : String) (s : Hub cfg) :
    (reply c line).Alone T s fun _ ↦ Replied c [ofAscii line] s :=
  (send_replied _ s).mono fun _ _ h ↦ h.2

/-- Something that is not noticed and then a reply. -/
theorem silent_reply {α : Type} {m : Handler cfg α} (hm : m.Takes (Section c (· ≠ .reply)))
    (line : String) (s : Hub cfg) : (do
      let _ ← m
      reply c line : Handler cfg Unit).Alone T s fun _ ↦ Replied c [ofAscii line] s :=
  alone_bind (silent_alone hm s) fun _ t ht ↦ (reply_replied line t).mono fun _ _ hu ↦ ht.trans hu

theorem fileStored_replied (log : Log) (text : Bytes) (s : Hub cfg) :
    (fileStored c log text).Alone T s fun _ ↦ Replied c [ofAscii "STORED\n"] s := by
  refine alone_bind (silent_alone (transcriptAppend_takes nofun _ _ _ _) s) fun _ t ht ↦ ?_
  exact (silent_reply (activityMark_takes nofun) _ t).mono fun _ _ hu ↦ ht.trans hu

/-- The part the two commands share, `line` being what is said at the end if the file arrives. -/
theorem receiveFile_replied {finish : Handler cfg Unit} {line : Bytes}
    (hfinish : ∀ t, finish.Alone T t fun _ ↦ Replied c [line] t) (transfer : Transfer)
    (s : Hub cfg) : (receiveFile c transfer finish).Alone T s fun _ ↦ Replied c
      (match transfer with
        | .targetUnknown | .targetOffline | .stored => [ofAscii "READY\n", line]
        | transfer => transfer.lines) s := by
  have hready {m : Handler cfg Unit} {line : Bytes}
      (hm : ∀ t, m.Alone T t fun _ ↦ Replied c [line] t) : (do
        reply c "READY\n"
        m : Handler cfg Unit).Alone T s fun _ ↦ Replied c [ofAscii "READY\n", line] s :=
    alone_bind (reply_replied _ s) fun _ t ht ↦ (hm t).mono fun _ _ hu ↦ ht.trans hu
  cases transfer with
  | header | tooLarge | hungUp => exact reply_replied _ s
  | digest | store => exact hready (reply_replied _)
  | targetUnknown | targetOffline | stored => exact hready hfinish

variable {transfer : Transfer}

/-- **What a human who has the turn is told.** -/
theorem fileCommand_replied (hhuman : (cfg.contact c.person).role = .human) (s : Hub cfg) :
    (fileCommand c true).Alone (fun i _ _ ↦ i.transfer = transfer) s
      fun _ ↦ Replied c transfer.lines s := by
  rw [fileCommand, if_neg (not_not_intro hhuman), if_neg (by simp)]
  refine alone_bind (R := fun found t ↦ found.1 = transfer ∧ t = s)
    (alone_atomic fun _ hi ↦ ⟨hi, rfl⟩) ?_
  rintro ⟨transfer, text⟩ t ⟨rfl, rfl⟩
  have hstored := receiveFile_replied (T := fun i _ _ ↦ i.transfer = transfer)
    (fileStored_replied (c := c) .transcript text.bytes) transfer t
  cases transfer with
  | targetUnknown => exact reply_replied _ t
  | targetOffline =>
    exact receiveFile_replied (silent_reply (transcriptAppend_takes (by decide) _ _ _ _) _) _ t
  | header | tooLarge | hungUp | digest | store | stored => exact hstored

theorem handleConnection_replied {lines : List Bytes} {command : Command} {hasTurn : Bool}
    (hcommand : c.command = some command) {s : Hub cfg}
    (hturn : s.arbitration.canSpeak c.name = hasTurn)
    (h : ∀ t, (handleCommand c hasTurn command).Alone T t fun _ ↦ Replied c lines t) :
    (handleConnection c).Alone T s fun _ ↦ Replied c lines s := by
  rw [handleConnection, serveLine, hcommand]
  have hseen := silent_alone (T := T) (c := c) markSeen_takes s
  have hstill := still_alone (T := T) (c := c) markSeen_takes s
  refine alone_bind (fun a t ht ↦ And.intro (hseen a t ht) (hstill a t ht)) fun _ t ht ↦ ?_
  refine alone_bind (R := fun _ ↦ Replied c lines s) ?_ fun _ u hu ↦ ?_
  · refine alone_bind (R := fun turn u ↦ turn = hasTurn ∧ Replied c [] s u)
      (alone_atomic fun _ _ ↦ ⟨?_, ?_⟩) ?_
    · dsimp only
      rw [ht.2, hturn]
    · exact ht.1.trans ⟨[_], rfl, rfl⟩
    · rintro _ u ⟨rfl, hu⟩
      exact (h u).mono fun _ _ hv ↦ hu.trans hv
  · refine (silent_alone (networkClose_takes (by simp)) u).mono fun _ v hv ↦ ?_
    have htrans := hu.trans hv
    rwa [append_nil] at htrans

end

/-! ## The line between the services -/

/-- Something `%s` reads as it is. -/
def IsWord (word : Bytes) : Prop := word ≠ [] ∧ ∀ b ∈ word, b ≠ 0 ∧ Bytes.isSpace b = false
  deriving Decidable

theorem Name.IsWord.isWord {name : Name} (h : name.IsWord) : Council.IsWord name.bytes :=
  ⟨h.1, fun b hb ↦ ⟨name.ne_zero b hb, h.2 b hb⟩⟩

theorem isWord_hex {data : Bytes} (h : data ≠ []) : IsWord (hex data) := by
  refine ⟨fun hnil ↦ h ?_, fun b hb ↦ ?_⟩
  · have hlength : (hex data).length = 0 := by rw [hnil]; rfl
    rw [← length_eq_zero_iff]
    simpa using hlength
  · have hdigit := of_isHexDigit (isHexDigit_of_mem_hex hb)
    exact ⟨hdigit.1, hdigit.2.2.2⟩

theorem isWord_decimal (n : Nat) : IsWord (decimal n) := by
  refine ⟨ofNat_ne_nil n, fun b hb ↦ ?_⟩
  have hdigit : isDigit b = true := isDigit_of_mem_ofNat hb
  have hhex := of_isHexDigit (b := b) (by rw [isHexDigit, hdigit, Bool.true_or])
  exact ⟨hhex.1, hhex.2.2.2⟩

theorem isWord_of_nameIsSafe {name : Bytes} (h : nameIsSafe name = true) :
    IsWord name ∧ name.length < 128 := by
  have hchar (b : UInt8) (hb : (isAlnum b || b = 46 || b = 95 || b = 45) = true) :
      b ≠ 0 ∧ isSpace b = false := by
    have hle : 32 < b.toNat := by
      simp only [isAlnum, isDigit, Bool.or_eq_true, Bool.and_eq_true, decide_eq_true_eq,
        UInt8.le_iff_toNat_le, ← UInt8.toNat_inj, UInt8.reduceToNat] at hb
      omega
    exact ⟨(of_space_lt hle).1, (of_space_lt hle).2.2.2⟩
  rw [nameIsSafe, Bool.and_eq_true, all_eq_true] at h
  simp only [Bool.not_eq_true', Bool.or_eq_false_iff, isEmpty_eq_false_iff,
    decide_eq_false_iff_not, Nat.not_le] at h
  exact ⟨⟨h.1.1.1.1, fun b hb ↦ hchar b (h.2 b hb)⟩, h.1.1.1.2⟩

/-- A header that can be read as it is written. -/
structure FileHeader.Plain (header : FileHeader) : Prop where
  person : IsWord header.person ∧ header.person.length < 64
  name : nameIsSafe header.name = true
  size : header.size < 2 ^ 64
  digest : IsWord header.digest ∧ header.digest.length ≤ 64

/-- A header as it is written. -/
def FileHeader.text (header : FileHeader) : Bytes :=
  header.person ++ 32 :: (header.name ++ 32 :: (decimal header.size ++ 32 :: header.digest))

namespace FileHeader.Plain

variable {header : FileHeader}

/-- **It is read as it was written.** -/
theorem scanHeader_text (h : header.Plain) : scanHeader header.text = some header := by
  obtain ⟨hperson, hlength⟩ := h.person
  obtain ⟨hname, hshort⟩ := isWord_of_nameIsSafe h.name
  obtain ⟨hdigest, hdigits⟩ := h.digest
  have hfirst : CString.scanWord 63 header.text = some (header.person, _) :=
    CString.scanWord_word hperson.1 (fun b hb ↦ (hperson.2 b hb).2) (by omega) rfl
  have hsecond : CString.scanWord 127 (header.name ++ 32 :: (decimal header.size ++
      32 :: header.digest)) = some (header.name, _) :=
    CString.scanWord_word hname.1 (fun b hb ↦ (hname.2 b hb).2) (by omega) rfl
  have hthird : CString.scanUnsigned (decimal header.size ++ 32 :: header.digest) =
      some (header.size, 32 :: header.digest) := CString.scanUnsigned_ofNat h.size rfl
  have hlast : CString.scanWord 64 (header.digest ++ []) = some (header.digest, []) :=
    CString.scanWord_word hdigest.1 (fun b hb ↦ (hdigest.2 b hb).2) hdigits rfl
  rw [append_nil] at hlast
  have hspace (string : Bytes) :
      CString.scanUnsigned (32 :: string) = CString.scanUnsigned string := by
    rw [CString.scanUnsigned, CString.scanUnsigned, dropWhile_cons_of_pos (by decide)]
  rw [scanHeader, hfirst]
  simp only [Option.bind_eq_bind, Option.bind_some, CString.scanWord_space, hsecond, hspace, hthird,
    hlast]
  rfl

theorem of_mem_text (h : header.Plain) {b : UInt8} (hb : b ∈ header.text) :
    b ≠ 0 ∧ b ≠ 10 ∧ b ≠ 13 := by
  have hword {word : Bytes} (hword : IsWord word) (hb : b ∈ word) : b ≠ 0 ∧ b ≠ 10 ∧ b ≠ 13 := by
    obtain ⟨hzero, hspace⟩ := hword.2 b hb
    refine ⟨hzero, ?_, ?_⟩ <;> rintro rfl <;> exact absurd hspace (by decide)
  simp only [text, mem_append, mem_cons] at hb
  rcases hb with hb | rfl | hb | rfl | hb | rfl | hb
  · exact hword h.person.1 hb
  · decide
  · exact hword (isWord_of_nameIsSafe h.name).1 hb
  · decide
  · exact hword (isWord_decimal _) hb
  · decide
  · exact hword h.digest.1 hb

theorem length_text (h : header.Plain) : header.text.length < 300 := by
  have hperson := h.person.2
  have hname := (isWord_of_nameIsSafe h.name).2
  have hdigest := h.digest.2
  have hsize : (decimal header.size).length ≤ 20 :=
    length_ofNat_le (by decide) (Nat.lt_of_lt_of_le h.size (by decide))
  simp only [text, length_append, length_cons]
  omega

/-- The C string of a command with a header is all of it. -/
theorem text_command (h : header.Plain) {word : String} (hword : ∀ b ∈ ofAscii word, b ≠ 0) :
    CString.text (ofAscii word ++ header.text) = ofAscii word ++ header.text := by
  refine CString.text_of_ne_zero fun b hb ↦ ?_
  rcases mem_append.mp hb with hb | hb
  · exact hword b hb
  · exact (h.of_mem_text hb).1

end FileHeader.Plain

/-- There is room for the line to the peer, and the peer reads all of it. -/
theorem read_storeCommandLine {sender : Name} {header : FileHeader}
    (h : { header with person := sender.bytes }.Plain) :
    networkReadLine messageLength (storeCommandLine sender header) =
      some (ofAscii "STORE " ++ { header with person := sender.bytes }.text, []) := by
  have hmem (b : UInt8)
      (hb : b ∈ ofAscii "STORE " ++ { header with person := sender.bytes }.text) :
      b ≠ 10 ∧ b ≠ 13 := by
    rcases mem_append.mp hb with hb | hb
    · exact (by decide : ∀ b ∈ ofAscii "STORE ", b ≠ 10 ∧ b ≠ 13) b hb
    · exact (h.of_mem_text hb).2
  have hlength := h.length_text
  have hstore : (ofAscii "STORE ").length = 6 := rfl
  have hline : storeCommandLine sender header =
      ofAscii "STORE " ++ { header with person := sender.bytes }.text ++ [10] := by
    have hall : ofAscii "STORE " ++ sender.bytes ++ [32] ++ header.name ++ [32] ++
        decimal header.size ++ [32] ++ header.digest ++ [10] =
        ofAscii "STORE " ++ { header with person := sender.bytes }.text ++ [10] := by
      simp [FileHeader.text]
    rw [storeCommandLine, hall, take_of_length_le]
    rw [length_append, length_append, hstore, length_singleton]
    omega
  rw [hline]
  refine networkReadLine_line (fun h ↦ (hmem 10 h).1 rfl) (fun h ↦ (hmem 13 h).2 rfl) ?_ []
  rw [length_append, hstore, messageLength]
  omega

/-! ## One service after the other -/

theorem size_lt_of_scanHeader {line : Bytes} {header : FileHeader}
    (h : scanHeader line = some header) : header.size < 2 ^ 64 := by
  rw [scanHeader] at h
  obtain ⟨⟨person, line⟩, -, h⟩ := Option.bind_eq_some_iff.mp h
  obtain ⟨⟨name, line⟩, -, h⟩ := Option.bind_eq_some_iff.mp h
  obtain ⟨⟨size, line⟩, hsize, h⟩ := Option.bind_eq_some_iff.mp h
  obtain ⟨⟨digest, line⟩, -, h⟩ := Option.bind_eq_some_iff.mp h
  obtain rfl := Option.some.inj h
  exact CString.scanUnsigned_lt hsize

/-- Nothing is in the way of the file at this service. -/
def Storage.Accepts (storage : Storage) (header : FileHeader) : Prop :=
  header.size ≤ storage.maxFileBytes ∧
    storage.attempt.Suffices storage.filesDirectory header.name header.size 1024

/-- The nonce has not been used before. -/
def Storage.Fresh (storage : Storage) (header : FileHeader) : Prop :=
  storage.attempt.Fresh storage.filesDirectory header.name storage.files

section

variable {storage : Storage} {header : FileHeader} {segments : List Bytes}

theorem code_eq_zero_iff (received : Received) :
    received.code = 0 ↔ ∃ path, received = .stored path := by
  cases received with
  | stored path => exact ⟨fun _ ↦ ⟨path, rfl⟩, fun _ ↦ rfl⟩
  | failed | mismatch => exact ⟨nofun, nofun⟩

/-- A file that is what was announced is stored if nothing is in its way. -/
theorem Storage.Fresh.stored_iff (hfresh : storage.Fresh header) {segments : List Bytes}
    (hsize : header.size ≤ (Socket.arrived segments).length)
    (hdigest : hex (Fips180.sha256 ((Socket.arrived segments).take header.size)) = header.digest) :
    (∃ path, (storage.receive header segments).1 = .stored path) ↔
      storage.attempt.Suffices storage.filesDirectory header.name header.size 1024 := by
  have h := receiveStream_verified storage.attempt storage.filesDirectory header.name header.size
    header.digest 1024 segments hfresh
  rw [← code_eq_zero_iff, Storage.receive, h.success_iff]
  simp only [hsize, hdigest, and_self, and_true]

theorem Storage.Fresh.readable (hfresh : storage.Fresh header) {path : Bytes}
    {files : Files Bytes UInt8} (h : storage.receive header segments = (.stored path, files)) :
    files path = some ((Socket.arrived segments).take header.size) := by
  have hverified := receiveStream_verified storage.attempt storage.filesDirectory header.name
    header.size header.digest 1024 segments hfresh
  rw [Storage.receive] at h
  rw [h] at hverified
  have hfiles : files = Function.update storage.files path _ := (hverified.kept path rfl).2
  rw [hfiles, Function.update_self]

theorem storeTransfer_stored_iff {line : Bytes} (hscan : scanHeader (line.drop 6) = some header) :
    storeTransfer storage line segments = .stored ↔ header.size ≤ storage.maxFileBytes ∧
      ∃ path, (storage.receive header segments).1 = .stored path := by
  rw [storeTransfer, hscan]
  dsimp only
  split
  · rename_i hlarge
    exact ⟨nofun, fun h ↦ absurd h.1 (Nat.not_le.mpr hlarge)⟩
  rename_i hlarge
  have hle := Nat.not_lt.mp hlarge
  cases (storage.receive header segments).1 with
  | stored path => exact ⟨fun _ ↦ ⟨hle, path, rfl⟩, fun _ ↦ rfl⟩
  | failed | mismatch => exact ⟨nofun, nofun⟩

/-- The hub is content only if the file has been stored. -/
theorem confirmed_lines (transfer : Transfer) :
    confirmed transfer.lines.flatten true = true ↔ transfer = .stored := by
  cases transfer with
  | stored => exact ⟨fun _ ↦ rfl, fun _ ↦ rfl⟩
  | _ => exact ⟨fun h ↦ absurd h (by decide), nofun⟩

variable {cfg : Config} {keys : cfg.Person → Key} {nonce : Bytes} {peer : Peer}
  {target : cfg.Person} {sender : Name} {path : Bytes} {files : Files Bytes UInt8}

/-- **A stored file is passed on if the peer knows the hub for an AI and nothing is in the way of
the file there.** -/
theorem forward_iff {content : Bytes} (hsender : sender.IsWord)
    (hname : nameIsSafe header.name = true) (hsize : header.size < 2 ^ 64)
    (hfresh : peer.storage.Fresh header) (hcontent : content.length = header.size)
    (hdigest : hex (Fips180.sha256 content) = header.digest) (hfile : files path = some content) :
    forward keys nonce (some peer) target sender header path files = true ↔
      (∃ person, authenticates keys target .file nonce = some person ∧
        (cfg.contact person).role = .ai) ∧ peer.storage.Accepts header := by
  rw [forward.eq_def]
  cases authenticates keys target .file nonce with
  | none =>
    refine ⟨nofun, ?_⟩
    rintro ⟨⟨_, hsome, -⟩, -⟩
    cases hsome
  | some person =>
    have hlength := Fips180.length_sha256 content
    have hword : IsWord header.digest :=
      hdigest ▸ isWord_hex (ne_nil_of_length_pos (by omega))
    have hdigits : header.digest.length ≤ 64 := by
      rw [← hdigest, length_hex]
      omega
    have hplain : { header with person := sender.bytes }.Plain :=
      ⟨⟨hsender.isWord, sender.short⟩, hname, hsize, hword, hdigits⟩
    have hscan : scanHeader ((ofAscii "STORE " ++
        { header with person := sender.bytes }.text).drop 6) = _ := hplain.scanHeader_text
    have harrived := peer.arrived_segments content
    dsimp only
    rw [Peer.answers, read_storeCommandLine hplain, hfile]
    dsimp only
    rw [hplain.text_command (by decide), Option.isSome_some, Option.getD_some]
    split
    · rename_i hrole
      refine ⟨fun h ↦ absurd h (by decide), ?_⟩
      rintro ⟨⟨_, hsome, hai⟩, -⟩
      obtain rfl := Option.some.inj hsome
      exact absurd hai hrole
    · rename_i hrole
      have hfresh : peer.storage.Fresh { header with person := sender.bytes } := hfresh
      have hall : (Socket.arrived (peer.segments content)).take header.size = content := by
        rw [harrived, ← hcontent, take_length]
      rw [confirmed_lines, storeTransfer_stored_iff hscan,
        hfresh.stored_iff (by rw [harrived, hcontent]) (by rw [hall, hdigest]), Storage.Accepts]
      exact ⟨fun h ↦ ⟨⟨person, rfl, not_not.mp hrole⟩, h⟩, fun h ↦ h.2⟩

end

/-! ## Both services -/

section

variable {cfg : Config}

/-- A file is sent: a human who has proved who it is and has the turn gives the command, there is a
header on the line, the AI it names can be called, and what follows is as long as the header says
and has the digest it says. -/
structure FileSent (keys : cfg.Person → Key) (peers : cfg.Person → Option Peer) (s : Hub cfg)
    (c : Connection cfg) (line : Bytes) (segments : List Bytes) (header : FileHeader)
    (target : cfg.Person) (peer : Peer) : Prop where
  human : ∃ nonce stream, (acceptIdentity keys .human nonce stream).2 = some c.person ∧
    (cfg.contact c.person).role = .human
  turn : s.arbitration.canSpeak c.name = true
  command : c.line = some line ∧ c.command = some .file
  reads : scanHeader ((CString.text line).drop 5) = some header
  finds : cfg.find (.snprintf header.person) = some target ∧ (cfg.contact target).role = .ai
  online : peers target = some peer
  size : header.size ≤ (Socket.arrived segments).length
  digest : hex (Fips180.sha256 ((Socket.arrived segments).take header.size)) = header.digest

variable {keys : cfg.Person → Key} {peers : cfg.Person → Option Peer} {s t : Hub cfg}
  {c : Connection cfg} {line : Bytes} {segments : List Bytes} {header : FileHeader}
  {hub target : cfg.Person} {peer : Peer} {storage : Storage} {random : Bytes}

theorem FileSent.stored_iff (h : FileSent keys peers s c line segments header target peer)
    (hloaded : cfg.Loaded) (hhub : cfg.find cfg.name = some hub) (htrimmed : cfg.name.Trimmed)
    (hrandom : random.length = 16) (hfresh : storage.Fresh header)
    (hfresh' : peer.storage.Fresh header) :
    fileTransfer keys (hex random) peers storage c.name (CString.text line) segments = .stored ↔
      storage.Accepts header ∧ peer.storage.Accepts header ∧
        Recognised keys hub target .file (hex random) := by
  obtain ⟨_, _, haccepted, -⟩ := h.human
  have hsender : c.name.IsWord := isWord_of_acceptIdentity keys haccepted
  have hfind : (cfg.find (.snprintf header.person)).filter
      (fun p ↦ (cfg.contact p).role = .ai) = some target := by
    rw [h.finds.1, Option.filter_some_pos (by simpa using h.finds.2)]
  rw [fileTransfer, h.reads]
  dsimp only
  split
  · rename_i hlarge
    exact ⟨nofun, fun hall ↦ absurd hall.1.1 (Nat.not_le.mpr hlarge)⟩
  rename_i hlarge
  have hle := Nat.not_lt.mp hlarge
  have hstored := hfresh.stored_iff h.size h.digest
  rw [hfind]
  dsimp only
  split
  · rename_i hreceived
    refine ⟨nofun, fun hall ↦ ?_⟩
    obtain ⟨path, hpath⟩ := hstored.mpr hall.1.2
    rw [hreceived] at hpath
    cases hpath
  · rename_i hreceived
    refine ⟨nofun, fun hall ↦ ?_⟩
    obtain ⟨path, hpath⟩ := hstored.mpr hall.1.2
    rw [hreceived] at hpath
    cases hpath
  · rename_i path files hreceived
    have hsuffices := hstored.mp ⟨path, by rw [hreceived]⟩
    have hforward : forward keys (hex random) (some peer) target c.name header path files = true ↔
        _ := forward_iff hsender hsuffices.1 (size_lt_of_scanHeader h.reads) hfresh'
      (length_take_of_le h.size) h.digest (hfresh.readable hreceived)
    simp only [authenticates_iff keys hloaded hhub htrimmed hrandom] at hforward
    rw [h.online]
    split
    · rename_i htrue
      obtain ⟨⟨_, ⟨-, hrecognised⟩, -⟩, haccepts⟩ := hforward.mp htrue
      exact ⟨fun _ ↦ ⟨⟨hle, hsuffices⟩, haccepts, hrecognised⟩, fun _ ↦ rfl⟩
    · rename_i hfalse
      refine ⟨nofun, fun hall ↦ absurd (hforward.mpr ?_) hfalse⟩
      exact ⟨⟨hub, ⟨rfl, hall.2.2⟩, hall.2.2.role⟩, hall.2.1⟩

/-- The last line says whether the file has been stored. -/
theorem getLast?_lines (transfer : Transfer) :
    transfer.lines.getLast? = some (ofAscii "STORED\n") ↔ transfer = .stored := by
  cases transfer with
  | stored => exact ⟨fun _ ↦ rfl, fun _ ↦ rfl⟩
  | _ => exact ⟨fun h ↦ absurd h (by decide), nofun⟩

theorem FileSent.replied (h : FileSent keys peers s c line segments header target peer)
    (transfer : Transfer) : (handleConnection c).Alone (fun i _ _ ↦ i.transfer = transfer) s
      fun _ ↦ Replied c transfer.lines s := by
  obtain ⟨_, _, -, hhuman⟩ := h.human
  exact handleConnection_replied h.command.2 h.turn fun t ↦ fileCommand_replied hhuman t

/-- **A call of the hub is accepted, and a file arrives, if and only if the hub is recognised**; the
file also must not be too large, its name must be safe and nothing may fail at either service. -/
theorem outbound_recognised_iff (hloaded : cfg.Loaded) (hhub : cfg.find cfg.name = some hub)
    (htrimmed : cfg.name.Trimmed) (keys : cfg.Person → Key) (hrandom : random.length = 16) :
    (∀ target kind, (cfg.contact target).role = .ai →
      (authenticates keys target kind (hex random) = some hub ↔
        Recognised keys hub target kind (hex random))) ∧
    ∀ (peers : cfg.Person → Option Peer) (storage : Storage) (s t : Hub cfg) (c : Connection cfg)
      (line : Bytes) (segments : List Bytes) (header : FileHeader) (target : cfg.Person)
      (peer : Peer), FileSent keys peers s c line segments header target peer →
      storage.Fresh header → peer.storage.Fresh header →
      (handleConnection c).Leads (fun i _ _ ↦ i.transfer =
        fileTransfer keys (hex random) peers storage c.name (CString.text line) segments) s () t →
      ((replies c s t).getLast? = some (Bytes.ofAscii "STORED\n") ↔
        storage.Accepts header ∧ peer.storage.Accepts header ∧
          Recognised keys hub target .file (hex random)) := by
  refine ⟨fun target kind _ ↦ ?_, ?_⟩
  · rw [authenticates_iff keys hloaded hhub htrimmed hrandom, eq_self, true_and]
  intro peers storage s t c line segments header target peer hsent hfresh hfresh' ht
  rw [(hsent.replied _ () t ht).replies, getLast?_lines]
  exact hsent.stored_iff hloaded hhub htrimmed hrandom hfresh hfresh'

end

/-! ## A file for argus -/

/-- A hub, another AI and a human. -/
def trio : Config where
  name := .snprintf (Bytes.ofAscii "hub")
  isHub := true
  presenceSeconds := 60
  contacts :=
    [⟨.snprintf (Bytes.ofAscii "alice"), .human, 1⟩, ⟨.snprintf (Bytes.ofAscii "hub"), .ai, 0⟩,
      ⟨.snprintf (Bytes.ofAscii "argus"), .ai, 0⟩]
  logs _ := []

namespace trio

def alice : trio.Person := ⟨0, by decide⟩
def hub : trio.Person := ⟨1, by decide⟩
def argus : trio.Person := ⟨2, by decide⟩

def keys : trio.Person → Key
  | ⟨0, _⟩ => ⟨Bytes.ofAscii "the key of alice", by decide, by decide⟩
  | ⟨1, _⟩ => ⟨Bytes.ofAscii "the key of the hub", by decide, by decide⟩
  | ⟨_, _⟩ => ⟨Bytes.ofAscii "the key of argus", by decide, by decide⟩

theorem keys_injective : Function.Injective keys := by
  unfold Function.Injective
  decide

theorem loaded : trio.Loaded := ⟨by decide, by decide⟩

/-- The nonce is made of these. -/
def random : Bytes := List.replicate 16 7

/-- The file is the text `hi`. -/
def header (target : String) : FileHeader :=
  ⟨Bytes.ofAscii target, Bytes.ofAscii "hi.txt", 2, hex (Fips180.sha256 [104, 105])⟩

/-- The line alice sends. -/
def line (target : String) : Bytes := Bytes.ofAscii "FILE " ++ (header target).text

def call (target : String) : Connection trio := ⟨0, alice, some (line target)⟩

/-- Everything works at this service. -/
def storage : Storage := ⟨10485760, Bytes.ofAscii "files", .smooth, fun _ ↦ none⟩

theorem storage_fresh (header : FileHeader) : storage.Fresh header := fun _ _ ↦ ⟨rfl, rfl⟩

theorem safe : nameIsSafe (ofAscii "hi.txt") = true := by decide

theorem storage_accepts (target : String) : storage.Accepts (header target) := by
  have hlength : (storedPath storage.filesDirectory (List.replicate 16 7)
      (ofAscii "hi.txt")).length = 45 := by decide
  refine ⟨(by decide : 2 ≤ 10485760), safe, ⟨_, rfl, ?_, ?_⟩, rfl, fun _ ↦ Nat.min_le_right _ _,
    rfl, rfl⟩
  · exact hlength ▸ (by decide : 45 + 5 < 1024)
  · exact hlength ▸ (by decide : 45 < 1024)

/-- What is sent arrives byte by byte. -/
def segments (data : Bytes) : List Bytes := data.map ([·])

theorem arrived_segments (data : Bytes) : Socket.arrived (segments data) = data := by
  induction data with
  | nil => rfl
  | cons b data ih =>
    rw [segments, map_cons, Socket.arrived_cons (cons_ne_nil b []), ← segments, ih]
    rfl

def peer : Peer := ⟨storage, segments, arrived_segments⟩

/-- It is alice's turn. -/
def start : Hub trio := .boot trio (trio.contact alice).name none fun _ ↦ 0

theorem sent {target : String} {p : trio.Person} (hname : IsWord (ofAscii target))
    (hlength : (ofAscii target).length < 64)
    (hfind : trio.find (.snprintf (ofAscii target)) = some p)
    (hai : (trio.contact p).role = .ai) :
    FileSent keys (fun _ ↦ some peer) start (call target) (line target) (segments [104, 105])
      (header target) p peer := by
  have hdigest := Fips180.length_sha256 [104, 105]
  have hplain : (header target).Plain := by
    refine ⟨⟨hname, hlength⟩, safe, (by decide : 2 < 2 ^ 64), isWord_hex ?_, ?_⟩
    · exact ne_nil_of_length_pos (by omega)
    · rw [header, length_hex]
      omega
  have htext : CString.text (line target) = line target := hplain.text_command (by decide)
  have haccepted : (acceptIdentity keys .human (hex random)
      (authText (keys alice) (trio.contact alice).name (hex random) ++ [10])).2 = some alice := by
    decide +kernel
  refine ⟨⟨_, _, haccepted, rfl⟩, rfl, ⟨rfl, ?_⟩, ?_, ⟨hfind, hai⟩, rfl, ?_, ?_⟩
  · rw [Connection.command, call, Option.map_some, htext]
    rfl
  · rw [htext]
    exact hplain.scanHeader_text
  · rw [arrived_segments]
    exact Nat.le_refl 2
  · rw [arrived_segments]
    rfl

theorem leads (target : String) (transfer : Transfer) :
    (handleConnection (call target)).Leads (fun i _ _ ↦ i.transfer = transfer) start ()
      ((handleConnection (call target)).finish { small.noon with transfer } start).2 :=
  leads_finish (throughout_of_forall (fun _ _ ↦ rfl) _ _)

end trio

/-- Argus takes a message from the hub, and a file for the hub itself gets there. -/
theorem hub_recognised :
    authenticates trio.keys trio.argus .deliver (hex trio.random) = some trio.hub ∧
      ∃ t, (handleConnection (trio.call "hub")).Leads
        (fun i _ _ ↦ i.transfer = fileTransfer trio.keys
          (hex trio.random) (fun _ ↦ some trio.peer) trio.storage (trio.call "hub").name
          (CString.text (trio.line "hub")) (trio.segments [104, 105])) trio.start () t ∧
        (replies (trio.call "hub") trio.start t).getLast? = some (Bytes.ofAscii "STORED\n") := by
  have h := @outbound_recognised_iff trio trio.hub trio.random trio.loaded (by decide) (by decide)
    trio.keys rfl
  refine ⟨(h.1 trio.argus .deliver rfl).mpr ⟨rfl, by decide, nofun⟩, ?_⟩
  have hleads := trio.leads "hub" (fileTransfer trio.keys (hex trio.random) (fun _ ↦ some trio.peer)
    trio.storage (trio.call "hub").name (CString.text (trio.line "hub")) (trio.segments [104, 105]))
  refine ⟨_, hleads, ?_⟩
  refine (h.2 _ trio.storage _ _ _ _ _ (trio.header "hub") trio.hub trio.peer ?_
    (trio.storage_fresh _) (trio.storage_fresh _) hleads).mpr ?_
  · exact trio.sent (by decide) (by decide) (by decide) rfl
  · exact ⟨trio.storage_accepts _, trio.storage_accepts _, rfl, by decide, fun _ ↦ rfl⟩

/-- **Argus does not take a file from the hub**, though no two keys are the same and everything
works. -/
theorem file_not_taken : Function.Injective trio.keys ∧
    authenticates trio.keys trio.argus .file (hex trio.random) ≠ some trio.hub ∧
    FileSent trio.keys (fun _ ↦ some trio.peer) trio.start (trio.call "argus") (trio.line "argus")
      (trio.segments [104, 105]) (trio.header "argus") trio.argus trio.peer ∧
    trio.storage.Accepts (trio.header "argus") ∧ trio.peer.storage.Accepts (trio.header "argus") ∧
    ∀ t, (handleConnection (trio.call "argus")).Leads
      (fun i _ _ ↦ i.transfer = fileTransfer trio.keys
        (hex trio.random) (fun _ ↦ some trio.peer) trio.storage (trio.call "argus").name
        (CString.text (trio.line "argus")) (trio.segments [104, 105])) trio.start () t →
      (replies (trio.call "argus") trio.start t).getLast? ≠ some (Bytes.ofAscii "STORED\n") := by
  have hdigest : authenticationDigest (trio.keys trio.argus) trio.name.bytes (hex trio.random) ≠
      authenticationDigest (trio.keys trio.hub) trio.name.bytes (hex trio.random) := by
    decide +kernel
  have hhub : trio.find trio.name = some trio.hub := by decide
  have htrimmed : trio.name.Trimmed := by decide
  have hrecognised : ¬ Recognised trio.keys trio.hub trio.argus .file (hex trio.random) :=
    fun h ↦ hdigest (h.digest rfl)
  have hsent : FileSent trio.keys _ trio.start (trio.call "argus") (trio.line "argus") _
      (trio.header "argus") trio.argus _ := trio.sent (by decide) (by decide) (by decide) rfl
  refine ⟨trio.keys_injective, ?_, hsent, trio.storage_accepts _, trio.storage_accepts _, ?_⟩
  · rw [ne_eq, authenticates_iff trio.keys trio.loaded hhub htrimmed rfl]
    exact fun h ↦ hrecognised h.2
  intro t ht
  rw [(hsent.replied _ () t ht).replies, ne_eq, getLast?_lines,
    hsent.stored_iff trio.loaded hhub htrimmed rfl (trio.storage_fresh _) (trio.storage_fresh _)]
  exact fun h ↦ hrecognised h.2.2

end Noobia.Council
