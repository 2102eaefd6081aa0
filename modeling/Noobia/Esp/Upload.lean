import Noobia.Esp.Lines
import Noobia.Esp.Runtime

/-!
# Uploading a program

A program is sent to a Noob as one line, `NRP/1 <request id> LOAD <program in hex>`.  With a program
of a kilobyte and a request id of 16 bytes the line has 2076 bytes.  That is within what the TCP
server accepts, but the serial transport stops at 2048: it has room for a kilobyte of hex digits and
not for the words before them.  A byte that is too many makes it forget the line, and what follows
is a line of its own to it, one that is no command.

`upload_iff` says that this is all there is to it.  Whatever the pieces in which the line comes in,
after enough passes the VM holds the program if and only if the line is short enough for the
transport, or the VM has held the program all along.
-/

namespace Noobia

open List Bytes

variable {W : Type}

/-! ## The line -/

/-- The digit of this value, in lower or upper case. -/
def IsHexDigit (digit : UInt8) (n : Nat) : Prop :=
  digit ∈ (Bytes.ofAscii "0123456789abcdef")[n]? ∨ digit ∈ (Bytes.ofAscii "0123456789ABCDEF")[n]?
  deriving Decidable

/-- The text is the bytes in hex. -/
inductive IsHexOf : Bytes → Bytes → Prop
  | nil : IsHexOf [] []
  | cons {high low b : UInt8} {text bytes : Bytes} (hhigh : IsHexDigit high (b.toNat / 16))
    (hlow : IsHexDigit low (b.toNat % 16)) (h : IsHexOf text bytes) :
    IsHexOf (high :: low :: text) (b :: bytes)

/-- A request id: one to 16 bytes, none of them a space or the end of a line. -/
structure IsRequestId (id : Bytes) : Prop where
  pos : 1 ≤ id.length
  le : id.length ≤ 16
  bytes : ∀ b ∈ id, b ≠ 32 ∧ isBreak b = false

/-- The line that uploads a program. -/
def uploadLine (id text : Bytes) : Bytes :=
  Bytes.ofAscii "NRP/1" ++ 32 :: (id ++ 32 :: (Bytes.ofAscii "LOAD" ++ 32 :: text))

theorem length_uploadLine (id text : Bytes) :
    (uploadLine id text).length = 12 + id.length + text.length := by
  simp [uploadLine, ofAscii]
  omega

variable {n : Nat}

theorem IsHexDigit.spec {digit : UInt8} (h : IsHexDigit digit n) :
    CommandDispatcher.hexValue digit = some n ∧ isBreak digit = false ∧
      digit ≠ 32 ∧ digit ≠ 95 ∧ digit ≠ 58 ∧ digit ≠ 78 := by
  have hlower : ∀ n : Fin 16, ∀ digit ∈ (ofAscii "0123456789abcdef")[n.val]?,
      CommandDispatcher.hexValue digit = some n.val ∧ isBreak digit = false ∧
        digit ≠ 32 ∧ digit ≠ 95 ∧ digit ≠ 58 ∧ digit ≠ 78 := by decide
  have hupper : ∀ n : Fin 16, ∀ digit ∈ (ofAscii "0123456789ABCDEF")[n.val]?,
      CommandDispatcher.hexValue digit = some n.val ∧ isBreak digit = false ∧
        digit ≠ 32 ∧ digit ≠ 95 ∧ digit ≠ 58 ∧ digit ≠ 78 := by decide
  rcases h with h | h
  · have hn := (List.getElem?_eq_some_iff.mp h).1
    exact hlower ⟨n, hn⟩ digit h
  · have hn := (List.getElem?_eq_some_iff.mp h).1
    exact hupper ⟨n, hn⟩ digit h

theorem decodeDigits_high {digit : UInt8} (h : IsHexDigit digit n)
    (capacity index : Nat) (output text : Bytes) :
    CommandDispatcher.decodeDigits capacity index none output (digit :: text) =
      CommandDispatcher.decodeDigits capacity (index + 1) (some n) output text := by
  obtain ⟨hvalue, -, h32, h95, h58, -⟩ := h.spec
  simp [CommandDispatcher.decodeDigits, hvalue, h32, h95, h58]

theorem decodeDigits_low {digit : UInt8} (h : IsHexDigit digit n)
    {capacity : Nat} (index high : Nat) {output : Bytes} (hroom : output.length < capacity)
    (text : Bytes) :
    CommandDispatcher.decodeDigits capacity index (some high) output (digit :: text) =
      CommandDispatcher.decodeDigits capacity (index + 1) none
        (output ++ [UInt8.ofNat ((high <<< 4) ||| n)]) text := by
  obtain ⟨hvalue, -, h32, h95, h58, -⟩ := h.spec
  simp [CommandDispatcher.decodeDigits, hvalue, h32, h95, h58, Nat.not_le.mpr hroom]

namespace IsHexOf

variable {text bytes : Bytes}

theorem length (h : IsHexOf text bytes) : text.length = 2 * bytes.length := by
  induction h with
  | nil => rfl
  | cons _ _ _ ih =>
    rw [length_cons, length_cons, length_cons, ih]
    omega

theorem digit (h : IsHexOf text bytes) : ∀ digit ∈ text, ∃ n, IsHexDigit digit n := by
  induction h with
  | nil => exact fun _ h ↦ (not_mem_nil h).elim
  | cons hhigh hlow _ ih =>
    rintro digit (_ | ⟨_, _ | ⟨_, hdigit⟩⟩)
    · exact ⟨_, hhigh⟩
    · exact ⟨_, hlow⟩
    · exact ih digit hdigit

theorem decodeDigits (h : IsHexOf text bytes) {capacity : Nat} (index : Nat) (output : Bytes)
    (hlength : output.length + bytes.length ≤ capacity) (hne : output ++ bytes ≠ []) :
    CommandDispatcher.decodeDigits capacity index none output text = .ok (output ++ bytes) := by
  induction h generalizing index output with
  | nil =>
    rw [append_nil] at hne ⊢
    simp [CommandDispatcher.decodeDigits, hne]
  | @cons high low b text bytes hhigh hlow _ ih =>
    have hbyte : UInt8.ofNat ((b.toNat / 16) <<< 4 ||| b.toNat % 16) = b := by
      rw [← Nat.shiftLeft_add_eq_or_of_lt (Nat.mod_lt _ (by decide)), Nat.shiftLeft_eq,
        Nat.mul_comm, Nat.div_add_mod]
      exact UInt8.ofNat_toNat
    rw [length_cons] at hlength
    rw [decodeDigits_high hhigh, decodeDigits_low hlow _ _ (by omega), hbyte,
      ih _ _ (by rw [length_append, length_singleton]; omega) (by simp),
      append_assoc]
    rfl

end IsHexOf

/-! ## The command -/

theorem parse_uploadLine {id text bytes : Bytes} (hid : IsRequestId id)
    (htext : IsHexOf text bytes) :
    NoobProtocol.parse (uploadLine id text) = (⟨id, ofAscii "LOAD", text⟩, none) := by
  have hne : id ≠ [] := ne_nil_of_length_pos hid.pos
  have harguments : (32 :: text).dropWhile (· = 32) = text := by
    rw [dropWhile_cons_of_pos (by decide)]
    cases text with
    | nil => rfl
    | cons digit text =>
      obtain ⟨n, hn⟩ := htext.digit digit (mem_cons_self ..)
      exact dropWhile_cons_of_neg (by simpa using hn.spec.2.2.1)
  rw [NoobProtocol.parse, NoobProtocol.nextToken, uploadLine,
    tokenAt_word (by decide) (by decide) (by simp)]
  dsimp only
  rw [NoobProtocol.nextToken, tokenAt_space,
    tokenAt_word (fun b hb ↦ (hid.bytes b hb).1) hne (by simp)]
  dsimp only
  rw [NoobProtocol.nextToken, tokenAt_space, tokenAt_word (by decide) (by decide) (by simp)]
  dsimp only
  rw [harguments, if_neg (by simp [NoobProtocol.version]), if_neg (by simp [hne]; decide)]
  rfl

/-- The VM holds the program and is ready to run it. -/
def NoobVm.Holds (vm : NoobVm) (program : Bytes) : Prop :=
  vm.loaded = program ∧ vm.state = .ready

/-- **The command loads the program.** -/
theorem handle_uploadLine {id text program : Bytes} (hid : IsRequestId id)
    (htext : IsHexOf text program) (hpos : 1 ≤ program.length) (hle : program.length ≤ 1024)
    (d : CommandDispatcher W) {m : Machine W} (hidle : m.vm.busy = false) :
    (d.handle (uploadLine id text) m).2.vm.Holds program := by
  have hdecode : CommandDispatcher.decodeHex text NoobVm.programBytes = .ok program :=
    htext.decodeDigits 0 [] (by rw [NoobVm.programBytes, length_nil]; omega)
      (ne_nil_of_length_pos hpos)
  obtain ⟨vm, hload⟩ := m.vm.load_ok hidle hpos hle
  obtain ⟨hloaded, -, -, -, -, -, hstate⟩ := NoobVm.load_spec hload
  have hdispatch : d.dispatch ⟨id, ofAscii "LOAD", text⟩ m =
      CommandDispatcher.loadProgram ⟨id, ofAscii "LOAD", text⟩ m := rfl
  rw [CommandDispatcher.handle, parse_uploadLine hid htext]
  dsimp only
  rw [hdispatch, CommandDispatcher.loadProgram, hdecode]
  dsimp only
  rw [hload]
  exact ⟨hloaded, hstate⟩

/-- What is left of the line when its beginning is forgotten is not a command. -/
theorem handle_digits {rest : Bytes} (hrest : ∀ digit ∈ rest, ∃ n, IsHexDigit digit n)
    (hne : rest ≠ []) (d : CommandDispatcher W) (m : Machine W) : (d.handle rest m).2 = m := by
  have hspace : ∀ b ∈ rest, b ≠ 32 := by
    intro b hb
    obtain ⟨n, hn⟩ := hrest b hb
    exact hn.spec.2.2.1
  have hversion : rest ≠ ofAscii NoobProtocol.version := by
    rintro rfl
    obtain ⟨n, hn⟩ := hrest 78 (by decide)
    exact hn.spec.2.2.2.2.2 rfl
  have htoken := tokenAt_word hspace hne (show ([] : Bytes).head?.all (· = 32) from rfl)
  rw [append_nil] at htoken
  rw [CommandDispatcher.handle, NoobProtocol.parse, NoobProtocol.nextToken, htoken]
  dsimp only
  rw [if_pos hversion]

/-! ## The transports -/

namespace LineTransport

/-- A transport in its default configuration at the beginning of a line.  The TCP server may have
had other clients, but now somebody connects. -/
def Fresh : LineTransport → Prop
  | stream t => t.stream = [] ∧ t.input = [] ∧ t.maximumLine = 2048
  | tcp t => t.waiting = [{ connected := true }] ∧ t.maximumLine = 2200

variable {t : LineTransport} {line : Bytes}

theorem Fresh.attached (h : t.Fresh) : t.Attached := by
  cases t with
  | stream t => trivial
  | tcp t => exact .inr ⟨_, h.1, rfl⟩

theorem Fresh.unread (h : t.Fresh) : t.unread = [] := by
  cases t with
  | stream t => exact h.1
  | tcp t => rw [LineTransport.unread, TcpServerTransport.attend_of_waiting h.1]

theorem Fresh.ahead_line (h : t.Fresh) (hline : ∀ b ∈ line, isBreak b = false) (hne : line ≠ [])
    (hlength : line.length ≤ t.maximumLine) : t.ahead (line ++ [10]) = [line] := by
  cases t with
  | stream t =>
    obtain ⟨hstream, hinput, -⟩ := h
    rw [maximumLine] at hlength
    rw [ahead, hstream, hinput, nil_append, StreamTransport.feed_eq, lines_line hline]
    simp [StreamTransport.kept_of_le hlength, hne]
  | tcp t =>
    rw [maximumLine] at hlength
    rw [ahead, TcpServerTransport.attend_of_waiting h.1, nil_append,
      TcpServerTransport.feed_eq, lines_line hline]
    simp [hne, hlength]

end LineTransport

/-! ## The result -/

section

variable {id text program : Bytes}

theorem isBreak_uploadLine (hid : IsRequestId id) (htext : IsHexOf text program) :
    ∀ b ∈ uploadLine id text, isBreak b = false := by
  intro b hb
  simp only [uploadLine, mem_append, mem_cons] at hb
  rcases hb with hb | rfl | hb | rfl | hb | rfl | hb
  · exact (by decide : ∀ b ∈ ofAscii "NRP/1", isBreak b = false) b hb
  · rfl
  · exact (hid.bytes b hb).2
  · rfl
  · exact (by decide : ∀ b ∈ ofAscii "LOAD", isBreak b = false) b hb
  · rfl
  · obtain ⟨n, hn⟩ := htext.digit b hb
    exact hn.spec.2.1

/-- What is too much of a line is part of the program. -/
theorem drop_uploadLine (hid : IsRequestId id) (htext : IsHexOf text program) :
    ∀ digit ∈ (uploadLine id text).drop 2049, ∃ n, IsHexDigit digit n := by
  intro digit hdigit
  have hwords : uploadLine id text =
      (ofAscii "NRP/1 " ++ id ++ ofAscii " LOAD ") ++ text := by
    simp [uploadLine, ofAscii]
  have hle := hid.le
  rw [hwords, drop_append, drop_eq_nil_of_le, nil_append] at hdigit
  · exact htext.digit digit (mem_of_mem_drop hdigit)
  · simp [ofAscii]
    omega

theorem handleAll_short (hid : IsRequestId id) (htext : IsHexOf text program)
    (hpos : 1 ≤ program.length) (hle : program.length ≤ 1024) (d : CommandDispatcher W)
    {m : Machine W} (hidle : m.vm.busy = false) :
    NoobRuntime.Calm d (uploadLine id text) ∧
      (NoobRuntime.handleAll d [uploadLine id text] m).vm.Holds program := by
  refine ⟨fun m hidle ↦ ?_, handle_uploadLine hid htext hpos hle d hidle⟩
  have hholds := handle_uploadLine hid htext hpos hle d hidle
  rw [NoobVm.busy, hholds.2]
  rfl

theorem handleAll_long {rest : Bytes} (hrest : ∀ digit ∈ rest, ∃ n, IsHexDigit digit n)
    (d : CommandDispatcher W) (m : Machine W) :
    (∀ frame ∈ [rest].filter (· ≠ []), NoobRuntime.Calm d frame) ∧
      NoobRuntime.handleAll d ([rest].filter (· ≠ [])) m = m := by
  cases rest with
  | nil => exact ⟨nofun, rfl⟩
  | cons digit rest =>
    have hhandle (m : Machine W) := handle_digits hrest (cons_ne_nil digit rest) d m
    refine ⟨fun frame hframe m hidle ↦ ?_, hhandle m⟩
    obtain rfl := mem_singleton.mp hframe
    rw [hhandle m]
    exact hidle

/-- All of the line comes in, in pieces, with passes in between and enough passes after it. -/
structure Uploads (id text : Bytes) (events : List NoobEvent) (passes : List (Nat × Nat)) :
    Prop where
  arrivals : NoobRuntime.arrivals events = uploadLine id text ++ [10]
  passes : (uploadLine id text).length + 1 ≤ passes.length

theorem Uploads.enough {events : List NoobEvent} {passes : List (Nat × Nat)}
    (h : Uploads id text events passes) {t : LineTransport} (ht : t.Fresh) :
    t.unread.length + (NoobRuntime.arrivals events).length ≤ passes.length := by
  rw [ht.unread, h.arrivals, length_append]
  simpa using h.passes

variable {t : LineTransport} {m : Machine W} {events : List NoobEvent} {passes : List (Nat × Nat)}

theorem run_short (ht : t.Fresh) (d : CommandDispatcher W) (hidle : m.vm.busy = false)
    (hid : IsRequestId id) (hpos : 1 ≤ program.length) (hle : program.length ≤ 1024)
    (htext : IsHexOf text program) (h : Uploads id text events passes)
    (hfits : 12 + id.length + 2 * program.length ≤ t.maximumLine) :
    ((NoobRuntime.mk d m [t]).run
      (events ++ passes.map fun p ↦ .loop p.1 p.2)).machine.vm.Holds program := by
  have hlength : (uploadLine id text).length ≤ t.maximumLine := by
    rw [length_uploadLine, htext.length]
    exact hfits
  have hahead := ht.ahead_line (isBreak_uploadLine hid htext)
    (ne_nil_of_length_pos (by rw [length_uploadLine]; omega)) hlength
  rw [← h.arrivals] at hahead
  obtain ⟨hcalm, hholds⟩ := handleAll_short hid htext hpos hle d hidle
  have hcalm' : ∀ frame ∈ t.ahead (NoobRuntime.arrivals events), NoobRuntime.Calm d frame := by
    intro frame hframe
    rw [hahead, mem_singleton] at hframe
    rw [hframe]
    exact hcalm
  rw [NoobRuntime.run_alone events passes ht.attached hidle hcalm' (h.enough ht), hahead]
  exact hholds

/-- The line is too long, which can only be over the serial transport. -/
theorem run_long (ht : t.Fresh) (d : CommandDispatcher W) (hidle : m.vm.busy = false)
    (hid : IsRequestId id) (hle : program.length ≤ 1024) (htext : IsHexOf text program)
    (h : Uploads id text events passes)
    (hlong : t.maximumLine < 12 + id.length + 2 * program.length) :
    ((NoobRuntime.mk d m [t]).run (events ++ passes.map fun p ↦ .loop p.1 p.2)).machine = m := by
  have hid' := hid.le
  have henough := h.enough ht
  have hlength := length_uploadLine id text
  rw [htext.length] at hlength
  cases t with
  | tcp t =>
    have hmaximum : t.maximumLine = 2200 := ht.2
    rw [LineTransport.maximumLine, hmaximum] at hlong
    omega
  | stream t =>
    obtain ⟨hstream, hinput, hmaximum⟩ := ht
    rw [LineTransport.maximumLine, hmaximum] at hlong
    have hahead : (LineTransport.stream t).ahead (NoobRuntime.arrivals events) =
        [(uploadLine id text).drop 2049].filter (· ≠ []) := by
      have honce : (uploadLine id text).length / 2049 = 1 :=
        Nat.div_eq_of_lt_le (by omega) (by omega)
      rw [LineTransport.ahead, hstream, hinput, hmaximum, h.arrivals, nil_append,
        StreamTransport.feed_eq, lines_line (isBreak_uploadLine hid htext), map_singleton,
        StreamTransport.kept, honce]
    obtain ⟨hcalm, hsame⟩ := handleAll_long (drop_uploadLine hid htext) d m
    have hattached : (LineTransport.stream t).Attached := trivial
    rw [NoobRuntime.run_alone events passes hattached hidle (by rw [hahead]; exact hcalm) henough,
      hahead, hsame]

/-- **A program is uploaded if and only if its line fits.**  The line may come in in any pieces,
and there may be passes in between; in the end there are as many as it takes to read it.  When the
line is too long for the transport the VM stays as it was. -/
theorem upload_iff (ht : t.Fresh) (d : CommandDispatcher W) (hidle : m.vm.busy = false)
    (hid : IsRequestId id) (hpos : 1 ≤ program.length) (hle : program.length ≤ 1024)
    (htext : IsHexOf text program) (h : Uploads id text events passes) :
    ((NoobRuntime.mk d m [t]).run
        (events ++ passes.map fun p ↦ .loop p.1 p.2)).machine.vm.Holds program ↔
      12 + id.length + 2 * program.length ≤ t.maximumLine ∨ m.vm.Holds program := by
  by_cases hfits : 12 + id.length + 2 * program.length ≤ t.maximumLine
  · exact iff_of_true (run_short ht d hidle hid hpos hle htext h hfits) (.inl hfits)
  · rw [run_long ht d hidle hid hle htext h (Nat.lt_of_not_le hfits), or_iff_right hfits]

end

/-- A dispatcher with nothing to call. -/
def CommandDispatcher.bare : CommandDispatcher Unit where
  noobName := "noob"
  firmwareVersion := "1"
  natives := {}
  capabilities := []
  lifecycle := none

/-- A program of one byte, in two pieces. -/
theorem upload_iff_small :
    ((NoobRuntime.mk .bare (.init ()) [.stream {}]).run
      ([.arrive 0 (Bytes.ofAscii "NRP/1 7 LO"), .loop 0 0, .arrive 0 (Bytes.ofAscii "AD 0f\n")] ++
        (List.replicate 16 (0, 0)).map fun p ↦ .loop p.1 p.2)).machine.vm.Holds [15] := by
  have hid : IsRequestId (ofAscii "7") := ⟨by decide, by decide, by decide⟩
  have htext : IsHexOf (ofAscii "0f") [15] := .cons (by decide) (by decide) .nil
  have ht : (LineTransport.stream {}).Fresh := ⟨rfl, rfl, rfl⟩
  have hmaximum : 12 + (ofAscii "7").length + 2 * ([15] : Bytes).length ≤
      (LineTransport.stream {}).maximumLine := by decide
  exact (upload_iff ht .bare rfl hid (by decide) (by decide) htext
    ⟨by decide, by decide⟩).mpr (.inl hmaximum)

theorem isHexOf_zeros (n : Nat) : IsHexOf (List.replicate (2 * n) 48) (List.replicate n 0) := by
  induction n with
  | zero => exact .nil
  | succ n ih => exact .cons (by decide) (by decide) ih

/-- **A kilobyte does not get through.**  In its default configuration the serial transport does not
hand over the line, even if it comes in as a whole. -/
theorem kilobyte_not_uploaded :
    ¬ ((NoobRuntime.mk .bare (.init ()) [.stream {}]).run
      ([.arrive 0 (uploadLine (Bytes.ofAscii "7") (List.replicate 2048 48) ++ [10])] ++
        (List.replicate 2062 (0, 0)).map fun p ↦ .loop p.1 p.2)).machine.vm.Holds
          (List.replicate 1024 0) := by
  have hid : IsRequestId (ofAscii "7") := ⟨by decide, by decide, by decide⟩
  have ht : (LineTransport.stream {}).Fresh := ⟨rfl, rfl, rfl⟩
  have hlength : (uploadLine (ofAscii "7") (List.replicate 2048 48)).length = 2061 := by
    rw [length_uploadLine, length_replicate]
    rfl
  have huploads : Uploads (ofAscii "7") (List.replicate 2048 48)
      [.arrive 0 (uploadLine (ofAscii "7") (List.replicate 2048 48) ++ [10])]
      (List.replicate 2062 (0, 0)) :=
    ⟨append_nil _, by rw [hlength, length_replicate]⟩
  rw [run_long ht .bare rfl hid (by rw [length_replicate]) (isHexOf_zeros 1024) huploads
    (by rw [length_replicate]; decide)]
  rintro ⟨-, hstate⟩
  cases hstate

end Noobia
