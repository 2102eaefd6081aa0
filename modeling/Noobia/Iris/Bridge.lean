import Noobia.Esp.Protocol
import Noobia.Esp.Transport
import Noobia.Lib.Digits

/-!
# The bridge from Iris to Neo

Iris asks Neo over a TCP connection, one request to a connection (`hw_neo_bridge.cpp`).  What
happens on the way is a `Link`: the connection fails in one of several ways, or the request is
answered with bytes that `recv` hands over in some pieces, the last of which is followed by the end
of the stream or a timeout.

`vmDownload` fetches a program from Neo piece by piece into a buffer of 1024 bytes and stores it.
The model keeps what is written where (`VmBuffer`) and every size that is announced, and it ends
with the call of `storeBytes` or with an error.
-/

namespace Noobia.Iris

open Bytes (ofAscii)

/-- `NativeResult`, as far as the bridge fills it in; its detail is read again. -/
structure NeoResult where
  ok : Bool
  value : Int
  detail : Bytes
  deriving DecidableEq

/-- A result that says what went wrong. -/
def NeoResult.fail (detail : String) : NeoResult := ⟨false, 0, ofAscii detail⟩

/-! ## Requests -/

/-- What becomes of a connection. -/
inductive Link
  | socketFailed
  | nonblockingFailed
  | unavailable
  | sendFailed
  /-- The request gets through, and these are the pieces in which the answer comes in. -/
  | answered (answer : Bytes → List Bytes)

/-- The text of a request, if it fits its 512 bytes. -/
def requestText (command : Bytes) : Option Bytes :=
  let request := ofAscii "NRP/1 1 " ++ CString.text command ++ [10]
  if request.length < 512 then some request else none

/-- The loop over `recv`: there is room for 511 bytes, and it ends with a line feed. -/
def recvReply (reply : Bytes) : List Bytes → Bytes
  | [] => reply
  | piece :: pieces =>
    if !(reply.length + 1 < 512) || piece.isEmpty then reply
    else
      let reply := reply ++ piece.take (511 - reply.length)
      if 10 ∈ reply then reply else recvReply reply pieces

/-- What `neoRequest` makes of the reply. -/
def readReply (reply : Bytes) : NeoResult :=
  if reply.isEmpty || 10 ∉ reply then .fail "Neo bridge: missing complete reply"
  else
    let text := CString.text reply
    if !(ofAscii "NRP/1 1 ").isPrefixOf text then
      .fail "Neo bridge: unexpected reply ID or version"
    else
      match (CString.after [32] text).bind (CString.after [32]) with
      | none => .fail "Neo bridge: malformed reply"
      | some payload =>
        let payload := payload.takeWhile fun c ↦ !isBreak c
        if (ofAscii "OK").isPrefixOf payload && (payload.drop 2).head?.all (· = 32) then
          let value :=
            match CString.after (ofAscii "value=") payload with
            | none => 0
            | some text => (CString.strtoSigned (2 ^ 63) text).1.bmod (2 ^ 32)
          ⟨true, value, payload.drop 3⟩
        else if (ofAscii "ERR ").isPrefixOf payload then
          ⟨false, 0, ofAscii "Neo: " ++ payload.drop 4⟩
        else .fail "Neo bridge: malformed reply status"

def neoRequest (link : Link) (command : Bytes) : NeoResult :=
  match link with
  | .socketFailed => .fail "Neo bridge: socket failed"
  | .nonblockingFailed => .fail "Neo bridge: nonblocking socket failed"
  | .unavailable => .fail "Neo bridge: Neo command service unavailable"
  | .sendFailed => .fail "Neo bridge: request send failed"
  | .answered answer =>
    match requestText command with
    | none => .fail "Neo bridge: request send failed"
    | some request => readReply (recvReply [] (answer request))

/-! ## Texts -/

/-- `String::replace` of one byte. -/
def replaceByte (byte : UInt8) (replacement : Bytes) (text : Bytes) : Bytes :=
  text.flatMap fun c ↦ if c = byte then replacement else [c]

def nativeTextCall (name : String) (text : Bytes) : Bytes :=
  let escaped := replaceByte 92 [92, 92] text
  let escaped := replaceByte 34 [92, 34] escaped
  ofAscii "CALL_MIXED " ++ ofAscii name ++ [32, 34] ++ escaped ++ [34]

def hexText (text : Bytes) : Bytes := Bytes.toHex text

def field (detail : Bytes) (key : String) : Bytes :=
  match CString.after (ofAscii key) detail with
  | none => []
  | some rest => rest.takeWhile (· ≠ 32)

def nibble (c : UInt8) : Option Nat := Bytes.hexValue c

/-! ## Programs -/

/-- The buffer `bytes`, and where it has been written to. -/
structure VmBuffer where
  byteAt : Nat → UInt8
  touched : List Nat := []

/-- `bytes[offset] = value`. -/
def VmBuffer.put (buffer : VmBuffer) (offset : Nat) (value : UInt8) : VmBuffer :=
  ⟨Function.update buffer.byteAt offset value, buffer.touched ++ [offset]⟩

/-- The loop over the digits of a piece, and whether it comes to the end. -/
def VmBuffer.decode (buffer : VmBuffer) (offset : Nat) : Bytes → VmBuffer × Bool
  | high :: low :: data =>
    match nibble high, nibble low with
    | some high, some low =>
      (buffer.put offset (UInt8.ofNat (high * 16 + low))).decode (offset + 1) data
    | _, _ => (buffer, false)
  | _ => (buffer, true)

/-- A call of `Esp32VmProgramStore::storeBytes`. -/
structure StoreBytes where
  name : Bytes
  bytes : Bytes
  replace : Bool
  deriving DecidableEq

/-- How `vmDownload` ends. -/
structure Download where
  buffer : VmBuffer
  /-- The sizes that have been announced. -/
  sizes : List Int
  /-- `storeBytes` is called, or there is an error. -/
  outcome : Except NeoResult StoreBytes

/-- The command that asks for the next piece. -/
def readCommand (offset : Nat) (encoded : Bytes) : Bytes :=
  ofAscii "VM_READ " ++ Bytes.ofNat offset ++ [32] ++ encoded

set_option linter.unusedVariables false in
/-- The loop of `vmDownload`.  The requests are numbered, and each of them may be answered in a way
of its own. -/
def downloadLoop (neo : Nat → Bytes → NeoResult) (filename : Bytes) (replace : Bool)
    (round offset expected : Nat) (buffer : VmBuffer) (sizes : List Int) : Download :=
  if hoffset : ¬ offset < 1024 then ⟨buffer, sizes, .error (.fail "incomplete VM download")⟩
  else
    let result := neo round (readCommand offset (hexText filename))
    if !result.ok then ⟨buffer, sizes, .error result⟩
    else
      let size := CommandDispatcher.toInt (field result.detail "size=")
      let data := field result.detail "data="
      let eof := field result.detail "eof="
      let sizes := sizes ++ [size]
      if hchunk : size ≤ 0 || 1024 < size || (expected ≠ 0 && expected ≠ size.toNat) ||
          data.length % 2 ≠ 0 || 256 < data.length || size.toNat < offset + data.length / 2 then
        ⟨buffer, sizes, .error (.fail "Neo bridge: invalid VM chunk")⟩
      else
        match buffer.decode offset data with
        | (buffer, false) => ⟨buffer, sizes, .error (.fail "invalid VM hex")⟩
        | (buffer, true) =>
          let next := offset + data.length / 2
          if eof = ofAscii "1" then
            if next ≠ size.toNat then ⟨buffer, sizes, .error (.fail "incomplete VM download")⟩
            else
              ⟨buffer, sizes, .ok ⟨filename.take (filename.length - 4),
                (List.range next).map buffer.byteAt, replace⟩⟩
          else if hdata : data.isEmpty || eof ≠ ofAscii "0" then
            ⟨buffer, sizes, .error (.fail "invalid VM EOF")⟩
          else downloadLoop neo filename replace (round + 1) next size.toNat buffer sizes
termination_by 1024 - offset
decreasing_by
  -- A piece that is not empty has at least two digits.
  have hoffset := not_not.mp hoffset
  have heven : data.length % 2 = 0 := by
    by_contra hodd
    simp [hodd] at hchunk
  have hpos : 0 < data.length := by
    rw [List.length_pos_iff]
    rintro hempty
    simp [hempty] at hdata
  change 1024 - (offset + data.length / 2) < 1024 - offset
  omega

/-- `vmDownload`, with a buffer that holds anything. -/
def vmDownload (neo : Nat → Bytes → NeoResult) (memory : Nat → UInt8) (arguments : List Int)
    (filename : Bytes) : Download :=
  if 1 < arguments.length || arguments.any (fun a ↦ a ≠ 0 && a ≠ 1) || filename.length < 5 ||
      80 < filename.length || !(ofAscii ".nvm").isSuffixOf filename then
    ⟨⟨memory, []⟩, [],
      .error (.fail "usage: VM_DOWNLOAD [replace=0|1] ASCII basename.nvm")⟩
  else downloadLoop neo filename (arguments = [1]) 0 0 0 ⟨memory, []⟩ []

end Noobia.Iris
