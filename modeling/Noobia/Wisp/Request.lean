import Noobia.Wisp.Json

/-!
# Reading a request

`read_request` reads from a client until it has the header and as much of a body as the header
announces, and puts a terminator behind that.  What the client sent beyond it stays in the buffer,
and so does whatever the allocation held before.  The body goes to `json_string` as a C string.

The client decides what arrives, and the network in what pieces: the `k`-th call of `read` returns
at most the `k`-th of a list of sizes, no more than there is room for, and nothing when the client
has no more to say.
-/

namespace Noobia.Wisp

open List CString

def reqMax : Nat := 2 * 1024 * 1024

/-- The end of a header line. -/
def crlf : Bytes := [13, 10]

/-- The loop of `header_value` over the lines of a header.  A line takes up two bytes at least, so
that the length of the request is more than enough `fuel`. -/
def headerLines (name : Bytes) : Nat → Bytes → Option Bytes
  | 0, _ => none
  | fuel + 1, p =>
    if p.isEmpty || crlf.isPrefixOf p then none else
    match CString.strstr crlf p with
    | none => none
    | some length =>
      if name.length < length && Bytes.equalsIgnoreCase (p.take name.length) name &&
          p[name.length]? = some 58 then
        some ((p.drop (name.length + 1)).dropWhile fun c ↦ c = 32 || c = 9)
      else headerLines name fuel (p.drop (length + 2))

/-- `header_value`, on a request with at least one complete line. -/
def headerValue (request name : Bytes) : Option Bytes :=
  (CString.strstr crlf request).bind fun i ↦ headerLines name request.length (request.drop (i + 2))

/-- Where the body begins and how long it is. -/
structure Framing where
  /-- `*header_len`. -/
  headerLen : Nat
  /-- `*body_len`. -/
  bodyLen : Nat

/-- What `read_request` makes of the header, once it is complete. -/
def frame (received : Bytes) : Except Int (Option Framing) :=
  let request := CString.text received
  match CString.strstr (crlf ++ crlf) request with
  | none => .ok none
  | some marker =>
    let headerLen := marker + 4
    let content :=
      ((headerValue request (Bytes.ofAscii "Content-Length")).map CString.strtoul).getD 0
    if reqMax - headerLen < content then .error (-2) else .ok (some ⟨headerLen, content⟩)

/-- What `read_request` hands out. -/
structure Request extends Framing where
  /-- The bytes received, the first `len` of the buffer. -/
  received : Bytes
  /-- The body has arrived. -/
  complete : headerLen + bodyLen ≤ received.length

/-- A full buffer is doubled, up to `REQ_MAX`. -/
def grown (cap len : Nat) : Nat := if len = cap then min (cap * 2) reqMax else cap

/-- The loop of `read_request`: `stream` is yet to come, and `framing` is known once `want` is. -/
def readLoop : List Nat → Bytes → Nat → Bytes → Option Framing → Except Int Request
  | sizes, stream, cap, received, framing =>
    if received.length = cap ∧ reqMax ≤ cap then .error (-2) else
    match sizes with
    | [] => .error (-1)
    | size :: sizes =>
      let cap := grown cap received.length
      let n := min size (min (cap - received.length) stream.length)
      if n = 0 then .error (-1) else
      let received := received ++ stream.take n
      match framing.elim (frame received) (.ok ∘ some) with
      | .error code => .error code
      | .ok none => readLoop sizes (stream.drop n) cap received none
      | .ok (some f) =>
        if complete : f.headerLen + f.bodyLen ≤ received.length then .ok ⟨f, received, complete⟩
        else readLoop sizes (stream.drop n) cap received (some f)

def readRequest (sizes : List Nat) (stream : Bytes) : Except Int Request :=
  readLoop sizes stream 8192 [] none

namespace Request

variable (request : Request)

/-- The buffer: what was received and the terminator behind it, another terminator behind the body,
and what the rest of the allocation happens to hold. -/
def memory (stale : Bytes) : Bytes :=
  (request.received ++ [0]).set (request.headerLen + request.bodyLen) 0 ++ stale

/-- `req + hlen`. -/
def body (stale : Bytes) : Bytes := (request.memory stale).drop request.headerLen

/-- The bytes of the body as the client sent them. -/
def content : Bytes := (request.received.drop request.headerLen).take request.bodyLen

/-- The body is what the client sent, a terminator, and something else. -/
theorem body_eq (stale : Bytes) : ∃ tail, request.body stale = request.content ++ 0 :: tail := by
  have hwant : request.headerLen + request.bodyLen < (request.received ++ [0]).length := by
    have := request.complete
    rw [length_append, length_singleton]
    omega
  refine ⟨(request.received ++ [0]).drop (request.headerLen + request.bodyLen + 1) ++ stale, ?_⟩
  rw [body, memory, set_eq_take_append_cons_drop, if_pos hwant,
    take_append_of_le_length request.complete, append_assoc,
    drop_append_of_le_length, drop_take, Nat.add_sub_cancel_left]
  · rfl
  rw [length_take]
  have := request.complete
  omega

theorem zero_mem_body (stale : Bytes) : 0 ∈ request.body stale := by
  obtain ⟨tail, h⟩ := request.body_eq stale
  simp [h]

theorem text_body (stale : Bytes) : text (request.body stale) = text request.content := by
  obtain ⟨tail, h⟩ := request.body_eq stale
  rw [h, text_append_zero]

end Request

variable {sizes : List Nat}

/-- What has been received is what the client sent first. -/
theorem received_of_readLoop {stream : Bytes} {cap : Nat} {received : Bytes}
    {framing : Option Framing} {request : Request}
    (h : readLoop sizes stream cap received framing = .ok request) :
    ∃ n, request.received = received ++ stream.take n := by
  induction sizes generalizing stream cap received framing with
  | nil =>
    rw [readLoop] at h
    split at h <;> cases h
  | cons size sizes ih =>
    rw [readLoop] at h
    split at h
    · cases h
    simp only at h
    split at h
    · cases h
    have hstep {m n : Nat}
        (hn : request.received = received ++ stream.take m ++ (stream.drop m).take n) :
        ∃ n, request.received = received ++ stream.take n :=
      ⟨m + n, by rw [hn, append_assoc, take_add]⟩
    split at h
    · cases h
    · obtain ⟨n, hn⟩ := ih h
      exact hstep hn
    split at h
    · obtain rfl := Except.ok.inj h
      exact ⟨_, rfl⟩
    · obtain ⟨n, hn⟩ := ih h
      exact hstep hn

theorem content_of_readRequest {stream : Bytes} {request : Request}
    (h : readRequest sizes stream = .ok request) :
    request.content = (stream.drop request.headerLen).take request.bodyLen := by
  obtain ⟨n, hn⟩ := received_of_readLoop h
  have hle := request.complete
  rw [nil_append] at hn
  rw [hn, length_take] at hle
  rw [Request.content, hn, drop_take, take_take, Nat.min_eq_left (by omega)]

/-- **Which requests make `json_string` leave the body.**  For everything a client may send, in
whatever pieces it arrives, and whatever the buffer held before: `json_string` on the body reads
nothing past its terminator and writes no more than it allocated exactly when, in the body the
client sent, every escape of the value is complete before the string ends. -/
theorem json_string_safe_iff (sizes : List Nat) (stream stale key : Bytes) {request : Request}
    (h : readRequest sizes stream = .ok request) :
    ((jsonString (request.body stale) key).final {}).Within (CString.strlen (request.body stale)) ↔
      ∀ string,
        valueText key (CString.text ((stream.drop request.headerLen).take request.bodyLen)) =
          some string → Complete string = true := by
  rw [jsonString_within_iff (request.zero_mem_body stale), request.text_body,
    content_of_readRequest h]

/-- A login whose password is a `\u` without digits, and more bytes than announced. -/
def overreaching : Bytes :=
  Bytes.ofAscii "POST /api/login HTTP/1.1\r\nContent-Length: 14\r\n\r\n\"password\":\"\\u0123456789"

/-- Three bytes are allocated for the password.  The step over four digits that are not there leads
past the terminator at 14 to the byte at 18, and what is found from there on is copied until seven
bytes have been written. -/
theorem overreaching_leaves_body :
    (readRequest [4096] overreaching).toOption.map (fun request ↦
      let t := (jsonString (request.body []) (Bytes.ofAscii "password")).final {}
      (CString.strlen (request.body []), decide (18 ∈ t.reads), t.cap, t.out.length)) =
      some (14, true, 3, 7) := by
  decide +kernel

/-- The login above is read as a request. -/
theorem json_string_safe_iff_overreaching :
    ∃ request, readRequest [4096] overreaching = .ok request ∧
      (((jsonString (request.body []) (Bytes.ofAscii "password")).final {}).Within
          (CString.strlen (request.body [])) ↔
        ∀ string, valueText (Bytes.ofAscii "password")
            (CString.text ((overreaching.drop request.headerLen).take request.bodyLen)) =
          some string → Complete string = true) := by
  have hread : (readRequest [4096] overreaching).toOption.isSome = true := by decide +kernel
  cases h : readRequest [4096] overreaching with
  | error code =>
    rw [h] at hread
    cases hread
  | ok request => exact ⟨request, rfl, json_string_safe_iff [4096] overreaching [] _ h⟩

end Noobia.Wisp
