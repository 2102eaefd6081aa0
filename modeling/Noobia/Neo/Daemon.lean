import Noobia.Lib.Digits
import Noobia.Neo.Registry

/-!
# Neo's daemon

A client connects, sends one line `NRP/1 <id> <command> [arguments]` and reads one line back
(`noob-neod.c`).  `handle` takes the line apart and decides what is to be done: an answer at once, a
native function to be called with its arguments, or a hardware command with its text.

Of the hardware commands `VM_READ` is modelled: it hands out the programs in `vm_directory`, up to
128 bytes at a time.  The directory is a function from names to the contents of regular files, and
how much a `pread` gets of what it asks for is a parameter.  The other commands drive devices and
processes; what they answer is a parameter as well.
-/

namespace Noobia.Neo

open List CString

open Bytes (ofAscii)

/-! ## Requests -/

/-- What the loop of `handle` makes of the bytes that come in. -/
inductive Received
  /-- The client has gone, or sent a zero byte. -/
  | closed
  | tooLong
  | line (request : Bytes)
  deriving DecidableEq

/-- The loop of `handle`, with room for so many bytes. -/
def receiveLine : Nat → Bytes → Bytes → Received
  | 0, _, _ => .tooLong
  | _ + 1, _, [] => .closed
  | room + 1, request, c :: stream =>
    if c = 10 then .line request
    else if c = 0 then .closed
    else receiveLine room (request ++ [c]) stream

/-- `sscanf(request, "NRP/1 %u %47s %n", &id, command, &offset)`: the id as far as it has been read,
and then the command and the arguments. -/
def scanRequest (ulong : Nat) (request : Bytes) : Nat × Option (Bytes × Bytes) :=
  if !(ofAscii "NRP/1").isPrefixOf request then (0, none)
  else
    match CString.scanUInt ulong (request.drop 5) with
    | none => (0, none)
    | some (id, rest) =>
      match CString.scanWord 47 rest with
      | none => (id, none)
      | some (command, rest) => (id, some (command, rest.dropWhile Bytes.isSpace))

def natives : List NoobNativeEntry :=
  [⟨"LED_SET", 2, false⟩, ⟨"LED_STATUS", 1, false⟩, ⟨"IR_STATUS", 0, false⟩,
    ⟨"IR_SCAN_START", 0, false⟩, ⟨"IR_SCAN_STOP", 0, false⟩, ⟨"IR_SCAN_READ", 0, false⟩,
    ⟨"FILE_DOWNLOAD", 0, true⟩, ⟨"FILE_STATUS", 0, false⟩, ⟨"VM_READ", 1, true⟩,
    ⟨"AUDIO_PLAY", 0, true⟩, ⟨"IMAGE_FORMAT", 0, true⟩, ⟨"OLED_DRAW", 0, true⟩,
    ⟨"OLED_TEXT", 0, true⟩, ⟨"DISPLAY_START", 1, true⟩, ⟨"DISPLAY_STOP", 0, false⟩,
    ⟨"DISPLAY_STATUS", 0, false⟩]

/-- What the daemon does. -/
inductive Action
  /-- `respond(client, id, status, payload)`. -/
  | respond (id : Nat) (status payload : Bytes)
  /-- `entry->call(client, id, entry->name, &parsed)`. -/
  | call (entry : NoobNativeEntry) (id : Nat) (arguments : NoobNativeArguments)
  /-- `hw_command(client, id, command, arguments)`. -/
  | hwCommand (id : Nat) (command arguments : Bytes)
  deriving DecidableEq

/-- The payload of the answer to `CAPS`. -/
def caps : Bytes :=
  ofAscii "name=Neo native_calls=CALL,CALL_MIXED functions=" ++
    ofAscii (String.intercalate "," (natives.map NoobNativeEntry.name))

/-- The commands `CALL` and `CALL_MIXED`. -/
def callNative (long id : Nat) (mixed : Bool) (arguments : Bytes) : Action :=
  match CString.scanWord 47 arguments with
  | none => .respond id (ofAscii "ERR BAD_REQUEST") (ofAscii "missing native name")
  | some (name, rest) =>
  match noobNativeFind natives name with
  | none => .respond id (ofAscii "ERR UNKNOWN_FUNCTION") name
  | some entry =>
  match noobNativeParse long (rest.dropWhile Bytes.isSpace) mixed with
  | none => .respond id (ofAscii "ERR BAD_ARGUMENTS") (ofAscii "wrong numeric/ASCII arguments")
  | some parsed =>
    if parsed.numbers.length ≠ entry.numbers || (!parsed.ascii.isEmpty) ≠ entry.text then
      .respond id (ofAscii "ERR BAD_ARGUMENTS") (ofAscii "wrong numeric/ASCII arguments")
    else .call entry id parsed

/-- What `handle` does with a command. -/
def dispatch (long id : Nat) (command arguments : Bytes) : Action :=
  if command = ofAscii "PING" && arguments.isEmpty then .respond id (ofAscii "OK") (ofAscii "PONG")
  else if command = ofAscii "CAPS" && arguments.isEmpty then .respond id (ofAscii "OK") caps
  else if command = ofAscii "CALL" || command = ofAscii "CALL_MIXED" then
    callNative long id (command = ofAscii "CALL_MIXED") arguments
  else if (noobNativeFind natives command).isSome then .hwCommand id command arguments
  else .respond id (ofAscii "ERR UNKNOWN_COMMAND") command

/-- `handle`: what is done about the bytes a client sends, in order. -/
def handle (long : Nat) (stream : Bytes) : List Action :=
  match receiveLine 511 [] stream with
  | .closed => []
  | .tooLong => [.respond 0 (ofAscii "ERR BAD_REQUEST") (ofAscii "request too long")]
  | .line request =>
  match scanRequest (2 * long) request with
  | (id, none) => [.respond id (ofAscii "ERR BAD_REQUEST") (ofAscii "expected NRP/1 id command")]
  | (id, some (command, arguments)) => [dispatch long id command arguments]

/-! ## Answers -/

/-- `respond`: what is sent, if it fits `REPLY_BYTES`. -/
def respond (id : Nat) (status payload : Bytes) : Bytes :=
  let reply := ofAscii "NRP/1 " ++ Bytes.ofNat id ++ 32 :: status ++
    (if payload.isEmpty then [] else 32 :: payload) ++ [10]
  if reply.length < 768 then reply else []

/-- The loop of `unhex`. -/
def unhexPairs : Bytes → Option Bytes
  | high :: low :: hex => do
    let h ← Bytes.hexValue high
    let l ← Bytes.hexValue low
    if h * 16 + l < 32 || 126 < h * 16 + l then none
    else return UInt8.ofNat (h * 16 + l) :: (← unhexPairs hex)
  | _ => some []

def unhex (hex : Bytes) (capacity : Nat) : Option Bytes :=
  if hex.length = 0 || hex.length % 2 ≠ 0 || capacity ≤ hex.length / 2 then none else unhexPairs hex

/-- A byte that `basename_ok` allows. -/
def isNameByte (c : UInt8) : Bool :=
  (97 ≤ c && c ≤ 122) || (65 ≤ c && c ≤ 90) || (48 ≤ c && c ≤ 57) || c = 95 || c = 45 || c = 46

def basenameOk (name : Bytes) : Bool :=
  !(name.isEmpty || name.head? = some 46 || (CString.strstr (ofAscii "..") name).isSome) &&
    name.all isNameByte

/-- `VM_READ` of `file_command`, which gets at most so many bytes of the file if reading works at
all: the status and the payload. -/
def vmRead (ulong : Nat) (files : Bytes → Option Bytes) (pread : Option Nat) (arguments : Bytes) :
    Bytes × Bytes :=
  let bad := (ofAscii "ERR BAD_REQUEST", ofAscii "expected offset and hex VM basename")
  match CString.scanUInt ulong arguments with
  | none => bad
  | some (offset, rest) =>
  match CString.scanWord 383 rest with
  | none => bad
  | some (hex, rest) =>
  if !(rest.dropWhile Bytes.isSpace).isEmpty then bad
  else
    match (unhex hex 192).filter basenameOk with
    | none => bad
    | some name =>
    if name.length < 5 || !(ofAscii ".nvm").isSuffixOf name then
      (ofAscii "ERR BAD_PATH", ofAscii "VM file must end in .nvm")
    else
      match (files name).filter fun file ↦
          1 ≤ file.length && file.length ≤ 1024 && offset ≤ file.length with
      | none => (ofAscii "ERR VM_FILE", ofAscii "VM unavailable or invalid size")
      | some file =>
      match pread with
      | none => (ofAscii "ERR IO", ofAscii "VM read failed")
      | some n =>
        let bytes := (file.drop offset).take (min n 128)
        (ofAscii "OK", ofAscii "value=" ++ Bytes.ofNat bytes.length ++ ofAscii " size=" ++
          Bytes.ofNat file.length ++ ofAscii " eof=" ++
          Bytes.ofNat (if offset + bytes.length = file.length then 1 else 0) ++ ofAscii " data=" ++
          Bytes.toHex bytes)

/-- What the client is sent about an action. -/
def answer (long : Nat) (files : Bytes → Option Bytes) (pread : Option Nat)
    (device : Action → Bytes) : Action → Bytes
  | .respond id status payload => respond id status payload
  | .call entry id arguments => device (.call entry id arguments)
  | .hwCommand id command arguments =>
    if command = ofAscii "VM_READ" then
      respond id (vmRead (2 * long) files pread arguments).1
        (vmRead (2 * long) files pread arguments).2
    else device (.hwCommand id command arguments)

/-- What a client that sends these bytes is sent before the connection is closed. -/
def serve (long : Nat) (files : Bytes → Option Bytes) (pread : Option Nat)
    (device : Action → Bytes) (stream : Bytes) : Bytes :=
  (handle long stream).flatMap (answer long files pread device)

/-! ## How a request is read -/

theorem receiveLine_line {room : Nat} {line : Bytes} (hline : ∀ c ∈ line, c ≠ 0 ∧ c ≠ 10)
    (hroom : line.length < room) (request rest : Bytes) :
    receiveLine room request (line ++ 10 :: rest) = .line (request ++ line) := by
  induction line generalizing room request with
  | nil =>
    obtain ⟨room, rfl⟩ := Nat.exists_eq_add_one_of_ne_zero (Nat.ne_of_gt hroom)
    simp [receiveLine]
  | cons c line ih =>
    obtain ⟨room, rfl⟩ := Nat.exists_eq_add_one_of_ne_zero (Nat.ne_of_gt (Nat.zero_lt_of_lt hroom))
    obtain ⟨⟨hzero, hbreak⟩, hline⟩ := forall_mem_cons.mp hline
    rw [cons_append, receiveLine, if_neg hbreak, if_neg hzero,
      ih hline (by simpa using hroom)]
    simp

theorem scanRequest_words {long : Nat} (hlong : 1 ≤ long) {command arguments : Bytes}
    (hcommand : command ≠ []) (hword : ∀ b ∈ command, Bytes.isSpace b = false)
    (hlength : command.length ≤ 47) (harguments : arguments.head?.all (!Bytes.isSpace ·) = true) :
    scanRequest (2 * long) (ofAscii "NRP/1 1 " ++ command ++ 32 :: arguments) =
      (1, some (command, arguments)) := by
  have hsplit : ofAscii "NRP/1 1 " ++ command ++ 32 :: arguments =
      ofAscii "NRP/1" ++ 32 :: (Bytes.ofNat 1 ++ 32 :: (command ++ 32 :: arguments)) := by
    have hone : Bytes.ofNat 1 = [49] := by decide
    have hstart : ofAscii "NRP/1 1 " = ofAscii "NRP/1" ++ [32, 49, 32] := by decide
    rw [hone, hstart]
    simp
  have hfirst : (ofAscii "NRP/1").isPrefixOf (ofAscii "NRP/1" ++
      32 :: (Bytes.ofNat 1 ++ 32 :: (command ++ 32 :: arguments))) = true := by
    refine isPrefixOf_iff_prefix.mpr ?_
    exact prefix_append _ _
  have hdrop : (ofAscii "NRP/1" ++ 32 :: (Bytes.ofNat 1 ++ 32 :: (command ++ 32 :: arguments))).drop
      5 = 32 :: (Bytes.ofNat 1 ++ 32 :: (command ++ 32 :: arguments)) := rfl
  have hid : scanUInt (2 * long) (Bytes.ofNat 1 ++ 32 :: (command ++ 32 :: arguments)) =
      some (1, 32 :: (command ++ 32 :: arguments)) :=
    scanUInt_ofNat (by omega) (by decide) rfl
  have hskip : arguments.dropWhile Bytes.isSpace = arguments := by
    cases arguments with
    | nil => rfl
    | cons b arguments => exact dropWhile_cons_of_neg (by simpa using harguments)
  rw [hsplit, scanRequest, hfirst, hdrop, scanUInt_space, hid]
  dsimp only
  rw [scanWord_space, scanWord_word hcommand hword hlength rfl]
  dsimp only
  rw [dropWhile_cons_of_pos (by decide), hskip]
  rfl

theorem natives_spec {entry : NoobNativeEntry} (h : entry ∈ natives) :
    noobNativeFind natives (ofAscii entry.name) = some entry ∧ ofAscii entry.name ≠ [] ∧
      (ofAscii entry.name).length ≤ 14 ∧
      ∀ b ∈ ofAscii entry.name, Bytes.isSpace b = false ∧ b ≠ 0 ∧ b ≠ 10 := by
  have hall : ∀ entry ∈ natives, noobNativeFind natives (ofAscii entry.name) = some entry ∧
      ofAscii entry.name ≠ [] ∧ (ofAscii entry.name).length ≤ 14 ∧
      ∀ b ∈ ofAscii entry.name, Bytes.isSpace b = false ∧ b ≠ 0 ∧ b ≠ 10 := by decide
  exact hall entry h

end Noobia.Neo
