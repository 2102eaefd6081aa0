import Noobia.Lib.Digits
import Noobia.Lib.Http
import Noobia.Lib.Socket

/-!
# The web gateway

`council-web` passes what is posted to it on to the council.  `receive_request` fills its buffer
from the socket until the request in it looks complete, and the command is made of whatever is then
behind the blank line.

A request looks complete when there is as much behind the blank line as the first `Content-Length`
says.  That need not be the whole body, nor only the body.  The field is looked for in one spelling,
and if it is not found in the head the search goes on in the body, and without it any request with a
blank line is complete; a length can be so large that the sum with the length of the head is small;
and what comes with the end of the body in one call of `recv` is taken for a part of it.
`body_received_iff` says for which requests, and for which segments of them, nothing of this
happens.
-/

namespace Noobia.Council.Web

open List

open Bytes Http

/-! ## The program -/

def requestCapacity : Nat := 16384

/-- The name of the field with the length of the body, as the gateway spells it. -/
def contentLength : Bytes := ofAscii "Content-Length"

/-- The place behind `strstr(request, "\r\n\r\n")`. -/
def bodyStart (received : Bytes) : Option Nat :=
  (CString.strstr (crlf ++ crlf) (CString.text received)).map (· + 4)

/-- The number behind `strstr(request, "\r\nContent-Length:")`. -/
def announced (received : Bytes) : Option Nat :=
  (CString.after (crlf ++ (contentLength ++ [58])) (CString.text received)).map CString.strtoul

/-- The loop of `receive_request`: what has been received, and what is needed behind the blank line
as far as it is known.  The result is what is in the buffer and where the body begins. -/
def receiveLoop (size : Nat) (received : Bytes) (needed : Nat) : List Bytes → Option (Bytes × Nat)
  | [] => none
  | segment :: segments =>
    if ¬ received.length + 1 < size then none
    else if segment = [] then none
    else
      -- the rest of a segment that does not fit is not read: the buffer is full
      let received := received ++ segment.take (size - received.length - 1)
      match bodyStart received with
      | none => receiveLoop size received needed segments
      | some body =>
        let needed := (announced received).getD needed
        if (body + needed) % 2 ^ 64 ≤ received.length then some (received, body)
        else receiveLoop size received needed segments

def receiveRequest (segments : List Bytes) : Option (Bytes × Nat) :=
  receiveLoop requestCapacity [] 0 segments

/-- `clean_message`: the message without the space around it, unless it is rejected. -/
def cleanMessage (message : Bytes) : Option Bytes :=
  let message := message.rdropWhile fun b ↦ b = 13 || b = 10 || isSpace b
  let length := message.length
  let message := message.dropWhile isSpace
  if message.isEmpty || message.contains 13 || message.contains 10 || 7900 < length then none
  else some message

def authorized (request wanted : Bytes) : Bool :=
  match CString.after (ofAscii "\r\nAuthorization: ") request with
  | none => false
  | some line => line.takeWhile (fun b ↦ b ≠ 13 && b ≠ 10) = wanted

/-- What `handle_request` does about a request: it replies, it sends the page, or it has a command
for the council. -/
inductive Answer
  | reply (code : Nat) (text : Bytes)
  | page
  | exchange (command : Bytes) (multiline : Bool)
  deriving DecidableEq

/-- The commands that can be posted. -/
def verb (path : Bytes) : Option Bytes :=
  if path = ofAscii "/api/initiate" then some (ofAscii "INITIATE")
  else if path = ofAscii "/api/say" then some (ofAscii "SAY")
  else if path = ofAscii "/api/vote" then some (ofAscii "END_VOTE")
  else none

/-- `sscanf(request, "%7s %511s", method, path)`. -/
def scanRequest (request : Bytes) : Option (Bytes × Bytes) :=
  (CString.scanWord 7 request).bind fun (method, rest) ↦
    (CString.scanWord 511 rest).map fun (path, _) ↦ (method, path)

/-- `handle_request`, for a gateway with this authorization, up to the exchange with the council. -/
def handleRequest (authorization : Bytes) (segments : List Bytes) : Answer :=
  match receiveRequest segments with
  | none => .reply 400 (ofAscii "bad request\n")
  | some (received, body) =>
    let request := CString.text received
    match scanRequest request with
    | none => .reply 400 (ofAscii "bad request\n")
    | some (method, path) =>
      if !authorized request authorization then .reply 401 (ofAscii "authentication required\n")
      else if method = ofAscii "GET" then
        if path = ofAscii "/" then .page
        else if (ofAscii "/api/events?cursor=").isPrefixOf path then
          .exchange (ofAscii "EVENTS " ++ Bytes.ofNat (CString.strtoul (path.drop 19))) true
        else if path = ofAscii "/api/status" then .exchange (ofAscii "STATUS") true
        else .reply 400 (ofAscii "unknown endpoint\n")
      else if method = ofAscii "POST" then
        match verb path with
        | none => .reply 400 (ofAscii "unknown endpoint\n")
        | some verb =>
          match cleanMessage (CString.text (received.drop body)) with
          | none => .reply 400 (ofAscii "invalid message\n")
          | some message => .exchange (verb ++ 32 :: message) false
      else .reply 400 (ofAscii "unknown endpoint\n")

/-! ## What is posted -/

/-- The value of a field that announces so many bytes: the number, with blanks and tabs around. -/
def Announces (value : Bytes) (n : Nat) : Prop :=
  ∃ s digits t : Bytes, (∀ b ∈ s, b = 32 ∨ b = 9) ∧ (∀ b ∈ t, b = 32 ∨ b = 9) ∧ digits ≠ [] ∧
    (∀ b ∈ digits, isDigit b = true) ∧ CString.decimal 0 digits = n ∧ value = s ++ digits ++ t

/-- A field that announces the length of the body, in upper or lower case. -/
def IsLength (f : Field) : Prop := equalsIgnoreCase f.name contentLength = true

/-- A request with a body. -/
structure Post extends Head where
  target : Bytes
  body : Bytes
  start_eq : start = ofAscii "POST " ++ target ++ ofAscii " HTTP/1.1"
  body_text : 0 ∉ body
  exists_length : ∃ f ∈ fields, IsLength f
  announces : ∀ f ∈ fields, IsLength f → Announces f.value body.length

namespace Post

variable (p : Post) (extra : Bytes)

/-- The length of the head with the blank line. -/
def headLength : Nat := p.bytes.length + 4

/-- Where the request ends. -/
def length : Nat := p.headLength + p.body.length

/-- The request and whatever is sent after it. -/
def stream : Bytes := p.bytes ++ (crlf ++ (crlf ++ (p.body ++ extra)))

/-- There is a field for the length that is spelled as the gateway spells it. -/
def Spelled : Prop := ∃ f ∈ p.fields, f.name = contentLength
  deriving Decidable

/-- The number behind the first thing behind the head that looks like such a field, or 0. -/
def mentioned (tail : Bytes) : Nat :=
  ((CString.after (crlf ++ (contentLength ++ [58])) (crlf ++ CString.text tail)).map
    CString.strtoul).getD 0

/-- The request seems complete to a gateway that does not find the length in the head. -/
def seemsComplete (r : Bytes) : Bool :=
  p.headLength ≤ r.length && (p.headLength + mentioned (r.drop p.headLength)) % 2 ^ 64 ≤ r.length

/-- The body is all there is to be seen behind the head: it has arrived, and nothing more, or what
has arrived after it begins with a terminator. -/
def Ends (r : Bytes) : Prop :=
  r.length = p.length ∨ p.length < r.length ∧ extra.head? = some 0

/-- The requests that are received as they were sent, if they arrive in these parts. -/
structure Clean (parts : List Bytes) : Prop where
  /-- If the length is spelled as expected, it is not so large that the sum overflows, and the end
  of the body is the end of a part or the end of everything, or a terminator follows. -/
  spelled : p.Spelled → (∃ r ∈ parts, p.headLength ≤ r.length) →
    p.length < 2 ^ 64 ∧ ((∃ r ∈ parts, p.length < r.length) →
      extra.head? = some 0 ∨ ∃ r ∈ parts, r.length = p.length)
  /-- Otherwise the body is all there is in the first part that seems complete. -/
  unspelled : ¬ p.Spelled → ∀ r, parts.find? p.seemsComplete = some r → p.Ends extra r

end Post

/-! ## Reception -/

theorem text_mono {r r' : Bytes} (h : r <+: r') : CString.text r <+: CString.text r' := by
  obtain ⟨tail, rfl⟩ := h
  rw [CString.text, CString.text, takeWhile_append]
  split
  · have hfront := takeWhile_prefix (l := r) (· ≠ 0)
    exact hfront.trans (prefix_append _ _)
  · exact prefix_rfl

/-- A length that has been seen is seen from then on. -/
theorem announced_eq_none {r r' : Bytes} (h : r <+: r') (hnone : announced r' = none) :
    announced r = none := by
  rw [announced, Option.map_eq_none_iff] at hnone ⊢
  obtain ⟨tail, htail⟩ := text_mono h
  cases hafter : CString.after (crlf ++ (contentLength ++ [58])) (CString.text r) with
  | none => rfl
  | some rest =>
    have hlonger := CString.after_append (by decide) hafter tail
    rw [htail, hnone] at hlonger
    cases hlonger

/-- What `receive_request` makes of a part of the request. -/
def framed (r : Bytes) : Option (Bytes × Nat) :=
  (bodyStart r).bind fun body ↦
    if (body + (announced r).getD 0) % 2 ^ 64 ≤ r.length then some (r, body) else none

/-- **The first part that looks complete is what is received.** -/
theorem receiveLoop_eq (size : Nat) {received : Bytes} {needed : Nat}
    (hneeded : announced received = none → needed = 0) (segments : List Bytes) :
    receiveLoop size received needed segments =
      (Socket.parts (size - received.length - 1) received segments).findSome? framed := by
  induction segments generalizing received needed with
  | nil => rfl
  | cons segment segments ih =>
    rw [receiveLoop, Socket.parts]
    by_cases hroom : received.length + 1 < size
    · rw [if_neg (not_not_intro hroom)]
      by_cases hend : segment = []
      · rw [if_pos hend, if_pos (.inl hend)]
        rfl
      rw [if_neg hend, if_neg (by rw [not_or]; exact ⟨hend, by omega⟩), findSome?_cons]
      dsimp only
      generalize hnext : received ++ segment.take (size - received.length - 1) = next
      have hlen : size - next.length - 1 = size - received.length - 1 - segment.length := by
        rw [← hnext, length_append, length_take]
        omega
      have hpart : received <+: next := ⟨_, hnext⟩
      have hzero : announced next = none → needed = 0 := fun hnone ↦
        hneeded (announced_eq_none hpart hnone)
      have hgetD : (announced next).getD needed = (announced next).getD 0 := by
        cases hannounced : announced next with
        | none => exact hzero hannounced
        | some n => rfl
      rw [framed, hgetD, ← hlen]
      cases bodyStart next with
      | none => exact ih hzero
      | some body =>
        simp only [Option.bind_some]
        split
        · rfl
        refine ih ?_
        intro hnone
        rw [hnone]
        rfl
    · rw [if_pos hroom, if_pos (.inr (by omega))]
      rfl

/-! ## Parts of a request -/

/-- The number in the field is read as it was meant, up to the largest there is. -/
theorem strtoul_of_announces {value : Bytes} {n : Nat} (h : Announces value n) (tail : Bytes) :
    CString.strtoul (value ++ 13 :: tail) = min n (2 ^ 64 - 1) := by
  obtain ⟨s, digits, t, hs, ht, hne, hdigits, rfl, rfl⟩ := h
  obtain ⟨d, digits, rfl⟩ := exists_cons_of_ne_nil hne
  have hd : (d :: digits ++ (t ++ 13 :: tail)).head?.any isDigit = true :=
    hdigits d mem_cons_self
  have hskip : (s ++ d :: digits ++ t ++ 13 :: tail).dropWhile isSpace =
      d :: digits ++ (t ++ 13 :: tail) := by
    have hblank : ∀ b ∈ s, isSpace b = true := by
      intro b hb
      rcases hs b hb with rfl | rfl <;> decide
    rw [append_assoc, append_assoc, dropWhile_append_of_pos hblank]
    exact CString.dropWhile_of_isDigit hd
  have hrest : (t ++ 13 :: tail).head?.all (!isDigit ·) = true := by
    cases t with
    | nil => rfl
    | cons b t =>
      rcases ht b mem_cons_self with rfl | rfl <;> rfl
  rw [CString.strtoul, hskip, CString.sign_of_isDigit hd]
  simp only [Bool.false_eq_true, if_false]
  rw [CString.decimal_append hrest]

namespace Post

variable {p : Post} {extra r : Bytes}

/-- A part of the request that looks complete to the gateway. -/
def complete (p : Post) (r : Bytes) : Bool :=
  p.headLength ≤ r.length && (p.headLength + if p.Spelled then min p.body.length (2 ^ 64 - 1)
    else mentioned (r.drop p.headLength)) % 2 ^ 64 ≤ r.length

section

variable (hr : r <+: p.stream extra)

include hr

/-- A part of the stream that is longer than the head. -/
theorem exists_of_part (hlen : p.headLength ≤ r.length) :
    r = p.bytes ++ (crlf ++ (crlf ++ r.drop p.headLength)) ∧
      r.drop p.headLength <+: p.body ++ extra := by
  have hstream : p.stream extra = (p.bytes ++ (crlf ++ crlf)) ++ (p.body ++ extra) := by
    simp [stream]
  have hhead : (p.bytes ++ (crlf ++ crlf)).length = p.headLength := by
    rw [length_append]
    rfl
  rw [hstream] at hr
  obtain ⟨tail, rfl⟩ : p.bytes ++ (crlf ++ crlf) <+: r :=
    prefix_of_prefix_length_le (prefix_append _ _) hr (by rw [hhead]; exact hlen)
  rw [← hhead, drop_left]
  refine ⟨by simp, (prefix_append_right_inj _).mp hr⟩

theorem text_of_part (hlen : p.headLength ≤ r.length) :
    CString.text r = p.bytes ++ (crlf ++ (crlf ++ CString.text (r.drop p.headLength))) := by
  rw [(exists_of_part hr hlen).1, CString.text_append p.zero_notMem]
  rw [← (exists_of_part hr hlen).1]
  rfl

theorem bodyStart_of_part :
    bodyStart r = if p.headLength ≤ r.length then some p.headLength else none := by
  split
  · rename_i hlen
    have hafter := after_blankLine p.toHead (CString.text (r.drop p.headLength))
    rw [← append_assoc] at hafter
    have hfound := CString.strstr_of_after hafter
    rw [bodyStart, text_of_part hr hlen]
    simpa [headLength, crlf] using hfound
  · rename_i hlen
    have hhead : r <+: p.bytes ++ (crlf ++ crlf) := by
      refine prefix_of_prefix_length_le hr ⟨p.body ++ extra, by simp [stream]⟩ ?_
      rw [length_append]
      exact Nat.le_of_not_le hlen
    obtain ⟨more, hmore⟩ := hhead
    have htext : CString.text r = r := by
      refine CString.text_of_not_mem fun hzero ↦ ?_
      have hmem : 0 ∈ p.bytes ++ (crlf ++ crlf) := hmore ▸ mem_append_left _ hzero
      rcases mem_append.mp hmem with hmem | hmem
      · exact p.zero_notMem hmem
      · exact absurd hmem (by decide)
    -- a blank line before the end of the head would be one in the head
    have hnone : CString.after (crlf ++ crlf) r = none := by
      cases hafter : CString.after (crlf ++ crlf) r with
      | none => rfl
      | some rest =>
        have hlonger := CString.after_append (by decide) hafter more
        have hwhole := after_blankLine p.toHead []
        rw [append_nil, ← hmore, hlonger, Option.some.injEq, append_eq_nil_iff] at hwhole
        rw [hwhole.2, append_nil] at hmore
        rw [hmore, length_append] at hlen
        exact absurd (Nat.le_refl _) hlen
    rw [CString.after, Option.map_eq_none_iff] at hnone
    rw [bodyStart, htext, hnone]
    rfl

theorem announced_of_part (hlen : p.headLength ≤ r.length) :
    (announced r).getD 0 = if p.Spelled then min p.body.length (2 ^ 64 - 1)
      else mentioned (r.drop p.headLength) := by
  rw [announced, text_of_part hr hlen]
  split
  · rename_i hspelled
    have hcolon : 58 ∉ contentLength := by decide
    obtain ⟨f, hf, hname, tail, htail⟩ := after_spelled hcolon hspelled
      (crlf ++ CString.text (r.drop p.headLength))
    have hlength : IsLength f := by
      rw [IsLength, hname]
      decide
    rw [htail, Option.map_some, Option.getD_some, strtoul_of_announces (p.announces f hf hlength)]
  · rename_i hspelled
    rw [after_unspelled (by decide) (by decide)]
    · rfl
    · intro f hf hname
      exact hspelled ⟨f, hf, hname⟩

theorem framed_of_part : framed r = if p.complete r then some (r, p.headLength) else none := by
  rw [framed, bodyStart_of_part hr, complete]
  by_cases hlen : p.headLength ≤ r.length
  · rw [if_pos hlen, Option.bind_some, announced_of_part hr hlen]
    simp [hlen]
  · simp [hlen]

/-- What is seen of the body in a part that is longer than the head. -/
theorem text_drop_eq_iff (hlen : p.headLength ≤ r.length) :
    CString.text (r.drop p.headLength) = p.body ↔ p.Ends extra r := by
  have hpart := (exists_of_part hr hlen).2
  have hlength : (r.drop p.headLength).length = r.length - p.headLength := length_drop
  generalize r.drop p.headLength = tail at hpart hlength ⊢
  -- once the body is there, what is seen is the body and what is seen of the rest
  have hsplit (hbody : p.body.length ≤ tail.length) :
      ∃ e, tail = p.body ++ e ∧ e <+: extra ∧ CString.text tail = p.body ++ CString.text e := by
    obtain ⟨e, rfl⟩ := prefix_of_prefix_length_le (prefix_append _ _) hpart hbody
    exact ⟨e, rfl, (prefix_append_right_inj _).mp hpart, CString.text_append p.body_text e⟩
  constructor
  · intro htext
    have hbody : p.body.length ≤ tail.length := by
      rw [← htext]
      exact (takeWhile_sublist _).length_le
    obtain ⟨e, rfl, he, hseen⟩ := hsplit hbody
    rw [htext, self_eq_append_right] at hseen
    cases e with
    | nil =>
      left
      rw [append_nil] at hlength
      rw [length]
      omega
    | cons c e =>
      right
      have hc : c = 0 := by
        by_contra hc
        rw [CString.text, takeWhile_cons_of_pos (by simpa using hc)] at hseen
        cases hseen
      obtain ⟨more, rfl⟩ := he
      rw [length_append, length_cons] at hlength
      refine ⟨?_, by rw [hc]; rfl⟩
      rw [length]
      omega
  · intro hends
    rw [Ends, length] at hends
    obtain ⟨e, rfl, he, hseen⟩ := hsplit (by omega)
    rw [hseen, append_right_eq_self]
    rw [length_append] at hlength
    rcases hends with hends | ⟨hends, hzero⟩
    · rw [eq_nil_of_length_eq_zero (l := e) (by omega)]
      rfl
    obtain ⟨c, e, rfl⟩ := exists_cons_of_length_pos (l := e) (by omega)
    obtain ⟨more, rfl⟩ := he
    obtain rfl := Option.some.inj hzero
    rfl

end

end Post

/-! ## Commands -/

/-- The command made of a post is a verb and what is left of the body. -/
theorem command_of_post {authorization received command : Bytes} {segments : List Bytes}
    {body : Nat} {multiline : Bool} (hreceived : receiveRequest segments = some (received, body))
    (hpost : ofAscii "POST " <+: CString.text received)
    (h : handleRequest authorization segments = .exchange command multiline) :
    ∃ path word, verb path = some word ∧
      (cleanMessage (CString.text (received.drop body))).map (word ++ 32 :: ·) = some command := by
  obtain ⟨rest, hrest⟩ := hpost
  have hmethod : CString.scanWord 7 (CString.text received) =
      some (ofAscii "POST", 32 :: rest) := by
    have hword : CString.scanWord 7 (ofAscii "POST" ++ 32 :: rest) =
        some (ofAscii "POST", 32 :: rest) :=
      CString.scanWord_word (by decide) (by decide) (by decide) rfl
    rw [← hrest, ← hword]
    rfl
  rw [handleRequest, hreceived] at h
  dsimp only at h
  rw [scanRequest, hmethod, Option.bind_some] at h
  split at h
  · cases h
  rename_i method path hscan
  obtain ⟨⟨path', rest'⟩, -, hpair⟩ := Option.map_eq_some_iff.mp hscan
  obtain ⟨rfl, rfl⟩ := Prod.mk.inj hpair
  split at h
  · cases h
  rw [if_neg (by decide), if_pos rfl] at h
  split at h
  · cases h
  rename_i word hverb
  split at h
  · cases h
  rename_i message hmessage
  obtain ⟨rfl, -⟩ := Answer.exchange.inj h
  exact ⟨path', word, hverb, by rw [hmessage]; rfl⟩

/-- **The body is received as it was sent**, and a command that is made of it depends on nothing
else. -/
def Received (p : Post) (segments : List Bytes) : Prop :=
  ∀ received body, receiveRequest segments = some (received, body) →
    CString.text (received.drop body) = p.body ∧
      ∀ authorization command multiline,
        handleRequest authorization segments = .exchange command multiline →
          ∃ path word, verb path = some word ∧
            (cleanMessage p.body).map (word ++ 32 :: ·) = some command

variable {p : Post} {extra : Bytes} {segments : List Bytes}

/-- What is received is the first part that looks complete. -/
theorem receiveRequest_eq (h : Socket.arrived segments <+: p.stream extra) :
    receiveRequest segments =
      ((Socket.parts 16383 [] segments).find? p.complete).map (·, p.headLength) := by
  have hparts : ∀ r ∈ Socket.parts 16383 [] segments,
      framed r = if p.complete r then some (r, p.headLength) else none := by
    intro r hr
    exact Post.framed_of_part ((Socket.mem_parts hr).1.trans h)
  rw [receiveRequest, receiveLoop_eq requestCapacity (fun _ ↦ rfl)]
  change (Socket.parts 16383 [] segments).findSome? framed = _
  generalize Socket.parts 16383 [] segments = parts at hparts ⊢
  induction parts with
  | nil => rfl
  | cons r parts ih =>
    rw [findSome?_cons, hparts r mem_cons_self, find?_cons]
    cases p.complete r with
    | true => rfl
    | false => exact ih fun r hr ↦ hparts r (mem_cons_of_mem _ hr)

theorem Post.complete_of_spelled (h : p.Spelled) {r : Bytes} : p.complete r = true ↔
    p.headLength ≤ r.length ∧
      (p.headLength + min p.body.length (2 ^ 64 - 1)) % 2 ^ 64 ≤ r.length := by
  simp [complete, h]

theorem Post.complete_of_unspelled (h : ¬ p.Spelled) : p.complete = p.seemsComplete := by
  funext r
  simp [complete, seemsComplete, h]

/-- In the first part of a length that is spelled as expected the body is all there is, unless the
sum overflows or something came with the end of the body. -/
theorem clean_spelled_iff (hspelled : p.Spelled) {parts : List Bytes}
    (hsmall : ∀ r ∈ parts, r.length < 2 ^ 64 - 1) (hsorted : parts.Pairwise (·.length < ·.length)) :
    (∀ r, parts.find? p.complete = some r → p.Ends extra r) ↔
      ((∃ r ∈ parts, p.headLength ≤ r.length) → p.length < 2 ^ 64 ∧
        ((∃ r ∈ parts, p.length < r.length) →
          extra.head? = some 0 ∨ ∃ r ∈ parts, r.length = p.length)) := by
  have hpos : 0 < p.headLength := Nat.succ_pos _
  have hfind {r : Bytes} (hr : r ∈ parts) (hcomplete : p.complete r = true) :
      ∃ r₀ ∈ parts, parts.find? p.complete = some r₀ := by
    obtain ⟨r₀, hr₀⟩ := Option.isSome_iff_exists.mp (find?_isSome.mpr ⟨r, hr, hcomplete⟩)
    exact ⟨r₀, mem_of_find?_eq_some hr₀, hr₀⟩
  constructor
  · rintro hends ⟨r, hr, hlen⟩
    constructor
    · by_contra hlarge
      -- the sum is less than the length of the head
      have hcomplete : p.complete r = true := by
        rw [Post.complete_of_spelled hspelled]
        have := hsmall r hr
        rw [Post.length] at hlarge
        omega
      obtain ⟨r₀, hmem, hr₀⟩ := hfind hr hcomplete
      have := hsmall r₀ hmem
      have := hends r₀ hr₀
      rw [Post.Ends] at this
      omega
    · rintro ⟨r, hr, hlen⟩
      have hcomplete : p.complete r = true := by
        rw [Post.complete_of_spelled hspelled]
        have := hsmall r hr
        rw [Post.length] at hlen
        rw [Nat.min_eq_left (by omega), Nat.mod_eq_of_lt (by omega)]
        omega
      obtain ⟨r₀, hmem, hr₀⟩ := hfind hr hcomplete
      rcases hends r₀ hr₀ with hexact | ⟨-, hzero⟩
      · exact .inr ⟨r₀, hmem, hexact⟩
      · exact .inl hzero
  · intro hclean r hr
    obtain ⟨hcomplete, before, behind, rfl, hbefore⟩ := find?_eq_some_iff_append.mp hr
    rw [Post.complete_of_spelled hspelled] at hcomplete
    obtain ⟨hlarge, hclean⟩ := hclean ⟨r, by simp, hcomplete.1⟩
    have hlength := hsmall r (by simp)
    rw [Post.length] at hlarge
    rw [Nat.min_eq_left (by omega), Nat.mod_eq_of_lt (by omega)] at hcomplete
    rcases Nat.eq_or_lt_of_le hcomplete.2 with hexact | hlonger
    · exact .inl hexact.symm
    rcases hclean ⟨r, by simp, hlonger⟩ with hzero | ⟨r', hr', hexact⟩
    · exact .inr ⟨hlonger, hzero⟩
    -- the part that ends with the body would have been taken before
    exfalso
    rw [pairwise_append, pairwise_cons] at hsorted
    rcases mem_append.mp hr' with hr' | hr'
    · have hnot := hbefore r' hr'
      rw [Bool.not_eq_true', ← Bool.not_eq_true, Post.complete_of_spelled hspelled] at hnot
      refine hnot ?_
      rw [Post.length] at hexact
      rw [Nat.min_eq_left (by omega), Nat.mod_eq_of_lt (by omega)]
      omega
    · rw [Post.length] at hexact
      rcases mem_cons.mp hr' with rfl | hr'
      · omega
      · have := hsorted.2.1.1 r' hr'
        omega

/-- **The body is received as it was sent, if the request is clean and not otherwise.** -/
theorem body_received_iff (h : Socket.arrived segments <+: p.stream extra) :
    Received p segments ↔ p.Clean extra (Socket.parts 16383 [] segments) := by
  have hfirst {r : Bytes} (hr : (Socket.parts 16383 [] segments).find? p.complete = some r) :
      r <+: p.stream extra ∧ p.headLength ≤ r.length := by
    refine ⟨(Socket.mem_parts (mem_of_find?_eq_some hr)).1.trans h, ?_⟩
    have hcomplete := find?_some hr
    rw [Post.complete, Bool.and_eq_true, decide_eq_true_eq] at hcomplete
    exact hcomplete.1
  have hreceived : Received p segments ↔
      ∀ r, (Socket.parts 16383 [] segments).find? p.complete = some r → p.Ends extra r := by
    constructor
    · intro hreceived r hr
      obtain ⟨hpart, hlen⟩ := hfirst hr
      refine (Post.text_drop_eq_iff hpart hlen).mp (hreceived r p.headLength ?_).1
      rw [receiveRequest_eq h, hr]
      rfl
    · intro hends received body hreceive
      rw [receiveRequest_eq h, Option.map_eq_some_iff] at hreceive
      obtain ⟨r, hr, heq⟩ := hreceive
      obtain ⟨rfl, rfl⟩ := Prod.mk.inj heq
      obtain ⟨hpart, hlen⟩ := hfirst hr
      have hbody := (Post.text_drop_eq_iff hpart hlen).mpr (hends r hr)
      refine ⟨hbody, fun authorization command multiline hcommand ↦ ?_⟩
      rw [← hbody]
      refine command_of_post ?_ ?_ hcommand
      · rw [receiveRequest_eq h, hr]
        rfl
      rw [Post.text_of_part hpart hlen, Head.bytes, p.start_eq]
      simp only [append_assoc]
      exact prefix_append _ _
  have hsmall : ∀ r ∈ Socket.parts 16383 [] segments, r.length < 2 ^ 64 - 1 := by
    intro r hr
    have := (Socket.mem_parts hr).2.2
    rw [length_nil] at this
    omega
  rw [hreceived]
  by_cases hspelled : p.Spelled
  · rw [clean_spelled_iff hspelled hsmall (Socket.parts_pairwise _ _ _)]
    exact ⟨fun hclean ↦ ⟨fun _ ↦ hclean, fun hnot ↦ absurd hspelled hnot⟩,
      fun hclean ↦ hclean.spelled hspelled⟩
  · rw [Post.complete_of_unspelled hspelled]
    exact ⟨fun hclean ↦ ⟨fun hyes ↦ absurd hyes hspelled, fun _ ↦ hclean⟩,
      fun hclean ↦ hclean.unspelled hspelled⟩

/-- A greeting, with the field for its length in this spelling. -/
def greeting (name : Bytes) (hplain : Plain name) (hcolon : 58 ∉ name)
    (hlength : equalsIgnoreCase name contentLength = true) : Post where
  target := ofAscii "/api/say"
  start := ofAscii "POST /api/say HTTP/1.1"
  fields := [⟨name, ofAscii " 5", hplain, hcolon, by decide⟩]
  start_plain := by decide
  body := ofAscii "hello"
  start_eq := by decide
  body_text := by decide
  exists_length := ⟨_, List.mem_cons_self, hlength⟩
  announces := by
    intro f hf _
    obtain rfl := List.mem_singleton.mp hf
    exact ⟨[32], [53], [], by decide, by decide, by decide, by decide, by decide, rfl⟩

/-- The greeting in the expected spelling. -/
def spelledGreeting : Post := greeting contentLength (by decide) (by decide) (by decide)

/-- It arrives in two segments, and something else after it in a third. -/
def spelledSegments : List Bytes :=
  [spelledGreeting.bytes ++ (crlf ++ (crlf ++ ofAscii "he")), ofAscii "llo", ofAscii "more"]

theorem spelledGreeting_received :
    Socket.arrived spelledSegments <+: spelledGreeting.stream (ofAscii "more") ∧
      Received spelledGreeting spelledSegments := by
  have harrived : Socket.arrived spelledSegments <+: spelledGreeting.stream (ofAscii "more") := by
    decide +kernel
  refine ⟨harrived, (body_received_iff harrived).mpr ⟨fun _ _ ↦ ⟨?_, fun _ ↦ .inr ?_⟩, ?_⟩⟩
  · decide +kernel
  · decide +kernel
  · intro hunspelled
    exact absurd (by decide +kernel) hunspelled

/-- The greeting as many clients spell it. -/
def lowerGreeting : Post :=
  greeting (ofAscii "content-length") (by decide) (by decide) (by decide)

def lowerSegments : List Bytes :=
  [lowerGreeting.bytes ++ (crlf ++ (crlf ++ ofAscii "he")), ofAscii "llo"]

/-- **Half of a greeting is taken for all of it**, when its length is spelled in lower case. -/
theorem half_received : Socket.arrived lowerSegments = lowerGreeting.stream [] ∧
    lowerGreeting.body = ofAscii "hello" ∧ ∃ received body,
      receiveRequest lowerSegments = some (received, body) ∧
        CString.text (received.drop body) = ofAscii "he" := by
  refine ⟨by decide +kernel, rfl, lowerGreeting.bytes ++ (crlf ++ (crlf ++ ofAscii "he")),
    lowerGreeting.headLength, ?_, ?_⟩
  · decide +kernel
  · decide +kernel

end Noobia.Council.Web
