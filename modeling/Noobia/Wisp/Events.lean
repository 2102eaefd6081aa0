import Noobia.Lib.Base64
import Noobia.Lib.CString
import Noobia.Lib.Framer

/-!
# Output as events

The server sends the output of the shell to a browser as server-sent events, `base64` and all
(`sse_send`), after the head of an HTTP response.  In the browser an `EventSource` cuts the body of
the response into lines and the lines into events, and the page decodes the data of every event
called `output`.

`shown_events` says that the page gets the bytes that were sent.
-/

namespace Noobia.Wisp

open List

open Bytes (ofAscii)

/-! ## The server -/

/-- The four digits of three bytes. -/
def base64Group (a b c : UInt8) : Bytes :=
  let v := a.toNat * 2 ^ 16 + b.toNat * 2 ^ 8 + c.toNat
  [Base64.digit (v / 2 ^ 18 % 64), Base64.digit (v / 2 ^ 12 % 64), Base64.digit (v / 2 ^ 6 % 64),
    Base64.digit (v % 64)]

/-- The loop of `base64`; what is missing in the last group counts as zero. -/
def base64Loop : Bytes → Bytes
  | [] => []
  | [a] => base64Group a 0 0
  | [a, b] => base64Group a b 0
  | a :: b :: c :: rest => base64Group a b c ++ base64Loop rest

/-- `base64`: in the end, the digits of what is missing are overwritten. -/
def base64 (bytes : Bytes) : Bytes :=
  let out := base64Loop bytes
  if bytes.length % 3 ≠ 0 then
    let out := out.set (out.length - 1) 61
    if bytes.length % 3 = 1 then out.set (out.length - 2) 61 else out
  else out

/-- What `sse_send` writes. -/
def sseEvent (bytes : Bytes) : Bytes :=
  ofAscii "event: output\ndata: " ++ base64 bytes ++ ofAscii "\n\n"

/-- The head that `start_stream` writes. -/
def streamHead : Bytes :=
  ofAscii ("HTTP/1.1 200 OK\r\nContent-Type: text/event-stream\r\nCache-Control: no-store\r\n" ++
    "X-Accel-Buffering: no\r\nConnection: keep-alive\r\n\r\n")

/-! ## The browser -/

/-- The buffers of an `EventSource`, and the bytes that the page has decoded. -/
structure EventSource where
  event : Bytes := []
  data : Bytes := []
  shown : Bytes := []

/-- A line comes in: a field of the next event, or the end of the event if the line is empty. -/
def EventSource.line (source : EventSource) (line : Bytes) : EventSource :=
  if line.isEmpty then
    ⟨[], [], source.shown ++ if source.data ≠ [] ∧ source.event = ofAscii "output" then
      (Base64.decode source.data.dropLast).getD [] else []⟩
  else
    let name := line.takeWhile (· ≠ 58)
    let value := line.drop (name.length + 1)
    let value := if value.head? = some 32 then value.tail else value
    if name = ofAscii "event" then { source with event := value }
    else if name = ofAscii "data" then { source with data := source.data ++ value ++ [10] }
    else source

/-- What the page gets from a connection: the body of the response, line by line. -/
def shown (received : Bytes) : Bytes :=
  match CString.after [13, 10, 13, 10] received with
  | none => []
  | some body => ((Framer.lines (· = 10) body).foldl EventSource.line {}).shown

/-! ## The page gets what is sent -/

theorem base64Group_eq (a b c : UInt8) : base64Group a b c =
    [Base64.digit (a.toNat / 4), Base64.digit (a.toNat % 4 * 16 + b.toNat / 16),
      Base64.digit (b.toNat % 16 * 4 + c.toNat / 64), Base64.digit (c.toNat % 64)] := by
  have ha := a.toNat_lt
  have hb := b.toNat_lt
  have hc := c.toNat_lt
  have h1 : (a.toNat * 2 ^ 16 + b.toNat * 2 ^ 8 + c.toNat) / 2 ^ 18 % 64 = a.toNat / 4 := by omega
  have h2 : (a.toNat * 2 ^ 16 + b.toNat * 2 ^ 8 + c.toNat) / 2 ^ 12 % 64 =
      a.toNat % 4 * 16 + b.toNat / 16 := by omega
  have h3 : (a.toNat * 2 ^ 16 + b.toNat * 2 ^ 8 + c.toNat) / 2 ^ 6 % 64 =
      b.toNat % 16 * 4 + c.toNat / 64 := by omega
  have h4 : (a.toNat * 2 ^ 16 + b.toNat * 2 ^ 8 + c.toNat) % 64 = c.toNat % 64 := by omega
  rw [base64Group, h1, h2, h3, h4]

theorem length_base64Loop (bytes : Bytes) :
    (base64Loop bytes).length = 4 * ((bytes.length + 2) / 3) := by
  induction bytes using base64Loop.induct with
  | case1 => rfl
  | case2 a | case3 a b => simp [base64Loop, base64Group]
  | case4 a b c rest ih =>
    have hgroup : (base64Group a b c).length = 4 := rfl
    rw [base64Loop, length_append, hgroup, ih]
    simp only [length_cons]
    omega

theorem base64_eq (bytes : Bytes) : base64 bytes = Base64.encode bytes := by
  induction bytes using base64Loop.induct with
  | case1 => rfl
  | case2 a | case3 a b =>
    rw [base64, base64Loop, base64Group_eq, Base64.encode]
    simp
  | case4 a b c rest ih =>
    have hlength := length_base64Loop rest
    have hgroup : (base64Group a b c).length = 4 := rfl
    have hmod : (a :: b :: c :: rest).length % 3 = rest.length % 3 := by
      simp only [length_cons]
      omega
    have hrec : base64 (a :: b :: c :: rest) = base64Group a b c ++ base64 rest := by
      rw [base64, base64, hmod]
      by_cases hrest : rest.length % 3 = 0
      · rw [if_neg (by simpa using hrest), if_neg (by simpa using hrest), base64Loop]
      have hlast : (base64Group a b c ++ base64Loop rest).set
          ((base64Group a b c ++ base64Loop rest).length - 1) 61 =
            base64Group a b c ++ (base64Loop rest).set ((base64Loop rest).length - 1) 61 := by
        rw [set_append_right _ _ (by rw [length_append]; omega), length_append]
        congr 2
        omega
      have hsecond (out : Bytes) (hout : out.length = (base64Loop rest).length) :
          (base64Group a b c ++ out).set ((base64Group a b c ++ out).length - 2) 61 =
            base64Group a b c ++ out.set (out.length - 2) 61 := by
        rw [set_append_right _ _ (by rw [length_append]; omega), length_append]
        congr 2
        omega
      rw [if_pos hrest, if_pos hrest, base64Loop, hlast]
      split
      · exact hsecond _ length_set
      · rfl
    rw [hrec, ih, base64Group_eq, Base64.encode]
    rfl

theorem ne_break_of_mem_base64 {c : UInt8} {bytes : Bytes} (hc : c ∈ base64 bytes) : c ≠ 10 := by
  rintro rfl
  exact absurd (Base64.isSpace_of_mem_encode (base64_eq bytes ▸ hc)) (by decide)

/-- **An event is read.** -/
theorem lines_sseEvent (bytes rest : Bytes) : Framer.lines (· = 10) (sseEvent bytes ++ rest) =
    ofAscii "event: output" :: (ofAscii "data: " ++ base64 bytes) :: [] ::
      Framer.lines (· = 10) rest := by
  have hsplit : sseEvent bytes ++ rest = ofAscii "event: output" ++ 10 ::
      (ofAscii "data: " ++ base64 bytes ++ 10 :: ([] ++ 10 :: rest)) := by
    simp [sseEvent, ofAscii]
  have hname : ∀ c ∈ ofAscii "event: output", decide (c = 10) = false := by decide
  have hdata : ∀ c ∈ ofAscii "data: " ++ base64 bytes, decide (c = 10) = false := by
    intro c hc
    rw [decide_eq_false_iff_not]
    rcases mem_append.mp hc with hc | hc
    · exact (by decide : ∀ c ∈ ofAscii "data: ", c ≠ 10) c hc
    · exact ne_break_of_mem_base64 hc
  rw [hsplit, Framer.lines_append_cons hname (by decide),
    Framer.lines_append_cons hdata (by decide),
    Framer.lines_append_cons (by simp) (by decide)]

theorem foldl_sseEvent (bytes : Bytes) (lines : List Bytes) (text : Bytes) :
    (ofAscii "event: output" :: (ofAscii "data: " ++ base64 bytes) :: [] :: lines).foldl
        EventSource.line ⟨[], [], text⟩ = lines.foldl EventSource.line ⟨[], [], text ++ bytes⟩ := by
  have hevent : EventSource.line ⟨[], [], text⟩ (ofAscii "event: output") =
      ⟨ofAscii "output", [], text⟩ := rfl
  have hdata : EventSource.line ⟨ofAscii "output", [], text⟩ (ofAscii "data: " ++ base64 bytes) =
      ⟨ofAscii "output", base64 bytes ++ [10], text⟩ := rfl
  have hend : EventSource.line ⟨ofAscii "output", base64 bytes ++ [10], text⟩ [] =
      ⟨[], [], text ++ bytes⟩ := by
    have hdispatch : EventSource.line ⟨ofAscii "output", base64 bytes ++ [10], text⟩ [] =
        ⟨[], [], text ++ if base64 bytes ++ [10] ≠ [] ∧ ofAscii "output" = ofAscii "output" then
          (Base64.decode (base64 bytes ++ [10]).dropLast).getD [] else []⟩ := rfl
    rw [hdispatch, if_pos ⟨by simp, rfl⟩, dropLast_concat, base64_eq, Base64.decode_encode,
      Option.getD_some]
  rw [foldl_cons, foldl_cons, foldl_cons, hevent, hdata, hend]

set_option maxRecDepth 2000 in
theorem after_streamHead (body : Bytes) :
    CString.after [13, 10, 13, 10] (streamHead ++ body) = some body := rfl

/-- **The page gets the bytes that were sent.** -/
theorem shown_events (chunks : List Bytes) :
    shown (streamHead ++ chunks.flatMap sseEvent) = chunks.flatten := by
  have hread (text : Bytes) : ((Framer.lines (· = 10) (chunks.flatMap sseEvent)).foldl
      EventSource.line ⟨[], [], text⟩).shown = text ++ chunks.flatten := by
    induction chunks generalizing text with
    | nil => simp [Framer.lines]
    | cons chunk chunks ih =>
      rw [flatMap_cons, lines_sseEvent, foldl_sseEvent, ih, flatten_cons,
        append_assoc]
  rw [shown, after_streamHead]
  exact hread []

end Noobia.Wisp
