import Noobia.Sequence.Service
import Noobia.Vm.Execute
import Noobia.Lib.CString

/-!
# Commands

A command is a line `NRP/1 <request id> <command> [arguments]`.  `NoobProtocol` takes the line
apart, and `CommandDispatcher` carries the command out and writes the reply.

The dispatcher acts on a `Machine`, that is on the VM and on the world of its native functions.
What a lifecycle hook does it does to that world.  The commands that call a native function read
their arguments themselves, each in a way of its own.
-/

namespace Noobia

/-! ## The protocol -/

/-- `NoobRequest`. -/
structure NoobRequest where
  /-- What the reply is to be marked with. -/
  requestId : Bytes
  /-- The command, in capital letters. -/
  command : Bytes
  /-- What follows the command. -/
  arguments : Bytes
  deriving DecidableEq

namespace NoobProtocol

def version : String := "NRP/1"

def nextToken (text : Bytes) : Bytes × Bytes := tokenAt text

/-- `parse`: the request, and what is wrong with it. -/
def parse (frame : Bytes) : NoobRequest × Option String :=
  let (version, rest) := nextToken frame
  let (requestId, rest) := nextToken rest
  let (command, rest) := nextToken rest
  let request : NoobRequest :=
    ⟨requestId, command.map Bytes.toUpper, rest.dropWhile (· = 32)⟩
  if version ≠ Bytes.ofAscii NoobProtocol.version then
    (request, some "unsupported protocol version")
  else if request.requestId.isEmpty || request.command.isEmpty then
    (request, some "expected NRP/1 request-id command [arguments]")
  else (request, none)

def ok (requestId : Bytes) (payload : String) : String :=
  version ++ " " ++ requestId.render ++ " OK" ++ if payload = "" then "" else " " ++ payload

def fail (requestId : Bytes) (code message : String) : String :=
  version ++ " " ++ requestId.render ++ " ERR " ++ code ++ " " ++ message

end NoobProtocol

/-! ## What replies are made of -/

/-- `stateName`. -/
def VmState.name : VmState → String
  | empty => "EMPTY"
  | ready => "READY"
  | running => "RUNNING"
  | waiting => "WAITING"
  | halted => "HALTED"
  | stopped => "STOPPED"
  | fault => "FAULT"

def NoobVm.status (vm : NoobVm) : String :=
  "state=" ++ vm.state.name ++ " pc=" ++ toString vm.pc ++ " bytes=" ++ toString vm.programLength ++
    " regs=" ++ ",".intercalate (vm.registers.toList.map toString) ++
    if vm.faultMessage = "" then "" else " fault=" ++ vm.faultMessage

def NoobRecord.serialize (r : NoobRecord) : String :=
  "\x7b" ++ ",".intercalate (r.fields.map fun field ↦ field.name ++ ":" ++ toString field.value) ++
    "\x7d"

def NativeRegistry.list {M : Type → Type} (registry : NativeRegistry M) : String :=
  ",".intercalate (registry.entries.map fun entry ↦ toString entry.id ++ ":" ++ entry.name.render)

/-- The reply to a call of a native function. -/
def NativeResult.reply (requestId : Bytes) (result : NativeResult) : String :=
  if !result.ok then NoobProtocol.fail requestId "NATIVE_ERROR" result.detail
  else NoobProtocol.ok requestId <|
    "value=" ++ toString result.value ++
      (if result.record.isEmpty then "" else " record=" ++ result.record.serialize) ++
      if result.detail = "" then "" else " detail=" ++ result.detail

/-! ## The dispatcher -/

/-- `NoobVmLifecycle`. -/
structure NoobVmLifecycle (W : Type) where
  onStarted : NoobVm → W → String × W
  onStopped : NoobVm → W → String × W
  onReset : NoobVm → W → String × W

/-- `CommandDispatcher`, without the reference to the VM. -/
structure CommandDispatcher (W : Type) where
  noobName : String
  firmwareVersion : String
  natives : VmNatives W
  /-- `capabilities_`, without what is not listed. -/
  capabilities : List String
  lifecycle : Option (NoobVmLifecycle W)

variable {W : Type}

namespace Machine

/-- Let a native function run. -/
def invoke {α : Type} (script : Script W NoobVm VmCall α) (m : Machine W) : α × Machine W :=
  let r := script.exec (fun c p ↦ (p.1, c.perform p.2)) (m.world, m.vm)
  (r.1, { m with world := r.2.1, vm := r.2.2 })

/-- Let a lifecycle hook run, and add what it says to the payload. -/
def notify (hook : Option (NoobVm → W → String × W)) (payload : String) (m : Machine W) :
    String × Machine W :=
  match hook with
  | none => (payload, m)
  | some hook =>
    let (detail, world) := hook m.vm m.world
    (if detail = "" then payload else payload ++ " " ++ detail, { m with world })

end Machine

namespace CommandDispatcher

def hexValue (value : UInt8) : Option Nat :=
  if 48 ≤ value && value ≤ 57 then some (value.toNat - 48)
  else if 97 ≤ value && value ≤ 102 then some (value.toNat - 97 + 10)
  else if 65 ≤ value && value ≤ 70 then some (value.toNat - 65 + 10)
  else none

/-- The loop of `decodeHex`, and what follows it. -/
def decodeDigits (capacity index : Nat) (high : Option Nat) (output : Bytes) :
    Bytes → Except String Bytes
  | [] =>
    if high.isSome then .error "odd number of hex digits"
    else if output.isEmpty then .error "empty program"
    else .ok output
  | value :: text =>
    if value = 32 || value = 95 || value = 58 then
      decodeDigits capacity (index + 1) high output text
    else
      match hexValue value, high with
      | none, _ => .error ("non-hex character at " ++ toString index)
      | some nibble, none => decodeDigits capacity (index + 1) (some nibble) output text
      | some nibble, some high =>
        if capacity ≤ output.length then .error "program exceeds 1024 bytes"
        else
          decodeDigits capacity (index + 1) none
            (output ++ [UInt8.ofNat ((high <<< 4) ||| nibble)]) text

def decodeHex (text : Bytes) (capacity : Nat) : Except String Bytes :=
  decodeDigits capacity 0 none [] text

/-- `String::toInt`, which is `atol`; a `long` has 32 bits. -/
def toInt (token : Bytes) : Int := (CString.strtoSigned (2 ^ 31) token).1

/-- `*end` is the end of the text. -/
def ends (rest : Bytes) : Bool := rest.head?.getD 0 = 0

/-- The numbers `callNative` reads, of which there is room for so many. -/
def callNumbers : Nat → Bytes → List Int
  | 0, _ => []
  | room + 1, text =>
    let (token, rest) := tokenAt text
    if token.isEmpty then [] else toInt token :: callNumbers room rest

/-- The numbers `callMixedNative` reads, and what follows them. -/
def mixedNumbers (room : Nat) (text : Bytes) : Option (List Int × Bytes) :=
  let text := text.dropWhile (· = 32)
  if text.head?.all (· = 34) then some ([], text)
  else
    match room with
    | 0 => none
    | room + 1 =>
      let (token, rest) := tokenAt text
      let (value, tail, range) := CString.strtoSigned (2 ^ 63) token
      if !ends tail || range || value < -2 ^ 31 || 2 ^ 31 - 1 < value then none
      else (mixedNumbers room rest).map fun (numbers, rest) ↦ (value :: numbers, rest)

/-- The quoted text `callMixedNative` reads, up to the closing quote if there is one. -/
def quoted (ascii : Bytes) : Bytes → Except String (Bytes × Option Bytes)
  | [] => .ok (ascii, none)
  | 34 :: rest => .ok (ascii, some rest)
  | [92] => .ok (ascii, none)
  | 92 :: c :: rest =>
    if c ≠ 34 ∧ c ≠ 92 then .error "only quote and backslash escapes supported"
    else if NativeRegistry.maxAsciiBytes < (ascii ++ [c]).length then
      .error "ASCII argument too long"
    else quoted (ascii ++ [c]) rest
  | c :: rest =>
    if NativeRegistry.maxAsciiBytes < (ascii ++ [c]).length then .error "ASCII argument too long"
    else quoted (ascii ++ [c]) rest

variable (d : CommandDispatcher W) (request : NoobRequest) (m : Machine W)

def callNative : String × Machine W :=
  let (selector, rest) := tokenAt request.arguments
  let numeric := !selector.isEmpty && selector.all Bytes.isDigit
  let entry :=
    if numeric then d.natives.find ((toInt selector).toNat % 2 ^ 16)
    else d.natives.findName selector
  match entry with
  | none => (NoobProtocol.fail request.requestId "NO_FUNCTION" selector.render, m)
  | some entry =>
    if !entry.implementation.acceptsNumbers then
      (NoobProtocol.fail request.requestId "FUNCTION_KIND"
      ("use CALL_TEXT for " ++ selector.render),
        m)
    else
      let numbers := callNumbers NoobVm.registerCount rest
      let (result, m) := m.invoke (NativeRegistry.call entry numbers)
      (result.reply request.requestId, m)

def callTextNative : String × Machine W :=
  let (selector, rest) := tokenAt request.arguments
  match (d.natives.findName selector).filter fun entry ↦ entry.implementation.acceptsText with
  | none => (NoobProtocol.fail request.requestId "NO_TEXT_FUNCTION" selector.render, m)
  | some entry =>
    let (result, m) := m.invoke (NativeRegistry.callText entry (rest.dropWhile (· = 32)))
    (result.reply request.requestId, m)

/-- The function `callMixedNative` is asked for, by name or by number. -/
def mixedEntry (selector : Bytes) : Option (NativeEntry (Script W NoobVm VmCall)) :=
  (d.natives.findName selector).orElse fun _ ↦
    let (id, tail, _) := CString.strtoSigned (2 ^ 31) selector
    if !selector.isEmpty && ends tail && 0 ≤ id && id ≤ 65535 then d.natives.find id.toNat else none

def callMixedNative : String × Machine W :=
  let (selector, rest) := tokenAt request.arguments
  match d.mixedEntry selector with
  | none => (NoobProtocol.fail request.requestId "NO_FUNCTION" selector.render, m)
  | some entry =>
  match mixedNumbers NoobVm.registerCount rest with
  | none =>
    (NoobProtocol.fail request.requestId "BAD_ARGUMENT" "expected signed 32-bit number", m)
  | some (_, []) =>
    (NoobProtocol.fail request.requestId "BAD_ARGUMENT"
      "expected quoted ASCII string; use \"\" for empty", m)
  | some (numbers, _ :: rest) =>
  match quoted [] rest with
  | .error error => (NoobProtocol.fail request.requestId "BAD_ARGUMENT" error, m)
  | .ok (ascii, closing) =>
    if !(closing.any fun rest ↦ (rest.dropWhile (· = 32)).isEmpty) then
      (NoobProtocol.fail request.requestId "BAD_ARGUMENT"
        "unterminated string or trailing arguments", m)
    else
      let (result, m) := m.invoke (NativeRegistry.callMixed entry numbers ascii)
      (result.reply request.requestId, m)

/-- The command `LOAD`. -/
def loadProgram : String × Machine W :=
  match decodeHex request.arguments NoobVm.programBytes with
  | .error error => (NoobProtocol.fail request.requestId "BAD_PROGRAM" error, m)
  | .ok bytes =>
  match m.vm.load bytes with
  | .error error => (NoobProtocol.fail request.requestId "VM_STATE" error, m)
  | .ok vm => (NoobProtocol.ok request.requestId ("loaded=" ++ toString bytes.length),
    { m with vm })

/-- The commands `RUN` and `START_THREAD`. -/
def runProgram : String × Machine W :=
  match m.vm.run with
  | .error error => (NoobProtocol.fail request.requestId "VM_STATE" error, m)
  | .ok vm =>
    let (payload, m) :=
      { m with vm }.notify (d.lifecycle.map NoobVmLifecycle.onStarted) "started"
    (NoobProtocol.ok request.requestId payload, m)

/-- The commands `STOP` and `STOP_THREAD`. -/
def stopProgram : String × Machine W :=
  let m := m.withVm NoobVm.stop
  let (payload, m) := m.notify (d.lifecycle.map NoobVmLifecycle.onStopped) m.vm.status
  (NoobProtocol.ok request.requestId payload, m)

/-- The command `RESET_VM`. -/
def resetVm : String × Machine W :=
  let m := m.withVm NoobVm.reset
  let (payload, m) := m.notify (d.lifecycle.map NoobVmLifecycle.onReset) m.vm.status
  (NoobProtocol.ok request.requestId payload, m)

def dispatch : String × Machine W :=
  let isCommand (name : String) : Bool := request.command = Bytes.ofAscii name
  if isCommand "PING" then (NoobProtocol.ok request.requestId "PONG", m)
  else if isCommand "INFO" then
    (NoobProtocol.ok request.requestId
      ("name=" ++ d.noobName ++ " firmware=" ++ d.firmwareVersion ++ " protocol=1 vm=1"), m)
  else if isCommand "CAPS" then
    (NoobProtocol.ok request.requestId
      ("caps=" ++ ",".intercalate d.capabilities ++ " functions=" ++ d.natives.list), m)
  else if isCommand "LOAD" then loadProgram request m
  else if isCommand "RUN" || isCommand "START_THREAD" then d.runProgram request m
  else if isCommand "STOP" || isCommand "STOP_THREAD" then d.stopProgram request m
  else if isCommand "RESET_VM" then d.resetVm request m
  else if isCommand "CALL" then d.callNative request m
  else if isCommand "CALL_TEXT" then d.callTextNative request m
  else if isCommand "CALL_MIXED" then d.callMixedNative request m
  else if isCommand "STATUS" || isCommand "THREAD_STATUS" then
    (NoobProtocol.ok request.requestId m.vm.status, m)
  else (NoobProtocol.fail request.requestId "UNKNOWN_COMMAND" request.command.render, m)

/-- What the runtime does with a frame: the reply to it. -/
def handle (frame : Bytes) (m : Machine W) : String × Machine W :=
  match NoobProtocol.parse frame with
  | (request, some error) =>
    (NoobProtocol.fail
      (if request.requestId.isEmpty then Bytes.ofAscii "-" else request.requestId)
      "BAD_FRAME" error, m)
  | (request, none) => d.dispatch request m

end CommandDispatcher

end Noobia
