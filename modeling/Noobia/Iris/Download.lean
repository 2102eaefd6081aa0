import Noobia.Iris.Bridge
import Noobia.Neo.Daemon

/-!
# Downloading a program from Neo

`vmDownload` asks Neo for a program piece by piece, `VM_READ <offset> <name in hex>`, until Neo says
that a piece is the last one.

`vm_download` has two halves.  With Neo at the other end, and a file that does not change, the
program is stored once and is the file, however little `pread` returns at a time and in whatever
pieces the answers come over the connection.  With anything at the other end, nothing is written
outside the buffer, and what is stored has the size that was announced with every piece.
-/

namespace Noobia

open List CString

open Bytes (ofAscii)

/-! ## The answer of Neo -/

namespace Neo

variable {b : UInt8}

theorem isPrintable_of_isNameByte (h : isNameByte b = true) : Bytes.isPrintable b = true := by
  have hrange : 45 ≤ b.toNat ∧ b.toNat ≤ 122 := by
    simp only [isNameByte, Bool.or_eq_true, Bool.and_eq_true, decide_eq_true_eq,
      UInt8.le_iff_toNat_le, UInt8.reduceToNat] at h
    rcases h with ((((h | h) | h) | rfl) | rfl) | rfl
    · omega
    · omega
    · omega
    · decide
    · decide
    · decide
  simp only [Bytes.isPrintable, Bool.not_eq_true', Bool.or_eq_false_iff, decide_eq_false_iff_not,
    UInt8.lt_iff_toNat_lt, UInt8.reduceToNat, gt_iff_lt]
  omega

theorem unhexPairs_toHex {name : Bytes} (hname : ∀ b ∈ name, Bytes.isPrintable b = true) :
    unhexPairs (Bytes.toHex name) = some name := by
  induction name with
  | nil => rfl
  | cons b name ih =>
    obtain ⟨hb, hname⟩ := forall_mem_cons.mp hname
    have hlt := b.toNat_lt
    have hrange : (decide (b.toNat < 32) || decide (126 < b.toNat)) = false := by
      simpa [Bytes.isPrintable, UInt8.lt_iff_toNat_lt] using hb
    rw [Bytes.toHex_cons, unhexPairs, Bytes.hexValue_hexDigit (by omega),
      Bytes.hexValue_hexDigit (by omega), ih hname]
    simp only [Option.bind_eq_bind, Option.bind_some, Nat.div_add_mod', hrange, Bool.false_eq_true,
      if_false, UInt8.ofNat_toNat, Option.pure_def]

/-- A piece of the file, of as much as `pread` returns. -/
def piece (file : Bytes) (offset n : Nat) : Bytes := (file.drop offset).take (min n 128)

/-- What Neo says about a piece. -/
def pieceText (file : Bytes) (offset n : Nat) : Bytes :=
  ofAscii "value=" ++ Bytes.ofNat (piece file offset n).length ++
    32 :: (ofAscii "size=" ++ Bytes.ofNat file.length ++
    32 :: (ofAscii "eof=" ++
      Bytes.ofNat (if offset + (piece file offset n).length = file.length then 1 else 0) ++
    32 :: (ofAscii "data=" ++ Bytes.toHex (piece file offset n))))

theorem length_piece (file : Bytes) (offset n : Nat) :
    (piece file offset n).length = min (min n 128) (file.length - offset) := by
  rw [piece, length_take, length_drop]

/-- A name of a program. -/
structure IsProgramName (name : Bytes) : Prop where
  ok : basenameOk name = true
  five_le : 5 ≤ name.length
  le_eighty : name.length ≤ 80
  nvm : (ofAscii ".nvm").isSuffixOf name = true

variable {long : Nat} {files : Bytes → Option Bytes} {name file : Bytes} {offset n : Nat}

theorem IsProgramName.isPrintable (h : IsProgramName name) (hb : b ∈ name) :
    Bytes.isPrintable b = true := by
  have hall := (Bool.and_eq_true_iff.mp h.ok).2
  exact isPrintable_of_isNameByte (all_eq_true.mp hall b hb)

theorem isHex_of_mem {c : UInt8} {bytes : Bytes} (hc : c ∈ Bytes.toHex bytes) :
    Bytes.isSpace c = false ∧ c ≠ 0 ∧ c ≠ 10 ∧ isBreak c = false ∧ c ≠ 32 := by
  have hall : ∀ n : Fin 16, Bytes.isSpace (Bytes.hexDigit n.val) = false ∧
      Bytes.hexDigit n.val ≠ 0 ∧ Bytes.hexDigit n.val ≠ 10 ∧
      isBreak (Bytes.hexDigit n.val) = false ∧ Bytes.hexDigit n.val ≠ 32 := by decide
  obtain ⟨n, hn, rfl⟩ := Bytes.exists_of_mem_toHex hc
  exact hall ⟨n, hn⟩

/-- **`VM_READ` hands out a piece of the file.** -/
theorem vmRead_piece (hlong : 2 ^ 31 ≤ long) (hname : IsProgramName name)
    (hfile : files name = some file) (hpos : 1 ≤ file.length) (hle : file.length ≤ 1024)
    (hoffset : offset ≤ file.length) :
    vmRead (2 * long) files (some n) (Bytes.ofNat offset ++ 32 :: Bytes.toHex name) =
      (ofAscii "OK", pieceText file offset n) := by
  have hfive := hname.five_le
  have heighty := hname.le_eighty
  have hunhex : unhex (Bytes.toHex name) 192 = some name := by
    rw [unhex, if_neg, unhexPairs_toHex fun b hb ↦ hname.isPrintable hb]
    simp only [Bytes.length_toHex, Bool.or_eq_true, decide_eq_true_eq]
    omega
  have hword : scanWord 383 (Bytes.toHex name) = some (Bytes.toHex name, []) := by
    have h : scanWord 383 (Bytes.toHex name ++ []) = some (Bytes.toHex name, []) :=
      scanWord_word (ne_nil_of_length_pos (by rw [Bytes.length_toHex]; omega))
        (fun b hb ↦ (isHex_of_mem hb).1) (by rw [Bytes.length_toHex]; omega) rfl
    rwa [append_nil] at h
  have hlength : ¬ name.length < 5 := Nat.not_lt_of_le hfive
  have hsome : (some name).filter basenameOk = some name := by simp [hname.ok]
  have hvalid : (some file).filter (fun file ↦
      1 ≤ file.length && file.length ≤ 1024 && offset ≤ file.length) = some file := by
    simp [hpos, hle, hoffset]
  rw [vmRead, scanUInt_ofNat (by omega) (by omega) rfl]
  dsimp only
  rw [scanWord_space, hword]
  dsimp only
  rw [hunhex, hsome]
  dsimp only
  rw [hname.nvm, hfile, hvalid]
  simp [hlength, pieceText, piece, ofAscii]

/-! ## The whole way to Neo -/

/-- The bytes of a piece and of a request have no end of a line in them. -/
theorem mem_ofNat (hb : b ∈ Bytes.ofNat n) : b ≠ 0 ∧ b ≠ 10 ∧ isBreak b = false ∧ b ≠ 32 := by
  have hrange := (Bytes.isDigit_iff b).mp (Bytes.isDigit_of_mem_ofNat hb)
  have hne (c : UInt8) (hc : c.toNat < 48) : b ≠ c := by
    rintro rfl
    omega
  refine ⟨hne 0 (by decide), hne 10 (by decide), ?_, hne 32 (by decide)⟩
  simp [isBreak, hne 10 (by decide), hne 13 (by decide)]

theorem mem_pieceText (hb : b ∈ pieceText file offset n) : b ≠ 0 ∧ isBreak b = false := by
  simp only [pieceText, mem_append, mem_cons] at hb
  have hvalue : ∀ b ∈ ofAscii "value=", b ≠ 0 ∧ isBreak b = false := by decide
  have hsize : ∀ b ∈ ofAscii "size=", b ≠ 0 ∧ isBreak b = false := by decide
  have heof : ∀ b ∈ ofAscii "eof=", b ≠ 0 ∧ isBreak b = false := by decide
  have hdata : ∀ b ∈ ofAscii "data=", b ≠ 0 ∧ isBreak b = false := by decide
  have hspace : (32 : UInt8) ≠ 0 ∧ isBreak 32 = false := by decide
  rcases hb with (hb | hb) | rfl | (hb | hb) | rfl | (hb | hb) | rfl | hb | hb
  · exact hvalue b hb
  · exact ⟨(mem_ofNat hb).1, (mem_ofNat hb).2.2.1⟩
  · exact hspace
  · exact hsize b hb
  · exact ⟨(mem_ofNat hb).1, (mem_ofNat hb).2.2.1⟩
  · exact hspace
  · exact heof b hb
  · exact ⟨(mem_ofNat hb).1, (mem_ofNat hb).2.2.1⟩
  · exact hspace
  · exact hdata b hb
  · exact ⟨(isHex_of_mem hb).2.1, (isHex_of_mem hb).2.2.2.1⟩

theorem length_pieceText (hle : file.length ≤ 1024) (offset n : Nat) :
    (pieceText file offset n).length ≤ 400 := by
  have hbytes := length_piece file offset n
  have hvalue : (Bytes.ofNat (piece file offset n).length).length ≤ 4 :=
    Bytes.length_ofNat_le (by decide) (by omega)
  have hsize : (Bytes.ofNat file.length).length ≤ 4 :=
    Bytes.length_ofNat_le (by decide) (by omega)
  have heof (bit : Nat) (hbit : bit < 10) : (Bytes.ofNat bit).length ≤ 1 :=
    Bytes.length_ofNat_le (by decide) (by omega)
  have heof' := heof (if offset + (piece file offset n).length = file.length then 1 else 0)
    (by split <;> decide)
  have hvalue' : (ofAscii "value=").length = 6 := rfl
  have hsize' : (ofAscii "size=").length = 5 := rfl
  have heof'' : (ofAscii "eof=").length = 4 := rfl
  have hdata' : (ofAscii "data=").length = 5 := rfl
  simp only [pieceText, length_append, length_cons, Bytes.length_toHex, hvalue', hsize',
    heof'', hdata']
  omega

theorem dispatch_vmRead (long id : Nat) (arguments : Bytes) :
    dispatch long id (ofAscii "VM_READ") arguments =
      .hwCommand id (ofAscii "VM_READ") arguments := by
  have hping : ofAscii "VM_READ" ≠ ofAscii "PING" := by decide
  have hcaps : ofAscii "VM_READ" ≠ ofAscii "CAPS" := by decide
  have hcall : ofAscii "VM_READ" ≠ ofAscii "CALL" := by decide
  have hmixed : ofAscii "VM_READ" ≠ ofAscii "CALL_MIXED" := by decide
  have hfind : (noobNativeFind natives (ofAscii "VM_READ")).isSome = true := by decide
  simp [dispatch, hping, hcaps, hcall, hmixed, hfind]

/-- The command that asks for a piece. -/
def readRequest (offset : Nat) (name : Bytes) : Bytes :=
  ofAscii "VM_READ" ++ 32 :: (Bytes.ofNat offset ++ 32 :: Bytes.toHex name)

theorem mem_readRequest {c : UInt8} (hc : c ∈ readRequest offset name) : c ≠ 0 ∧ c ≠ 10 := by
  simp only [readRequest, mem_append, mem_cons] at hc
  rcases hc with hc | rfl | hc | rfl | hc
  · exact (by decide : ∀ c ∈ ofAscii "VM_READ", c ≠ 0 ∧ c ≠ 10) c hc
  · decide
  · exact ⟨(mem_ofNat hc).1, (mem_ofNat hc).2.1⟩
  · decide
  · exact ⟨(isHex_of_mem hc).2.1, (isHex_of_mem hc).2.2.1⟩

theorem length_readRequest (hname : name.length ≤ 80) (hoffset : offset ≤ 1024) :
    (readRequest offset name).length ≤ 173 := by
  have hdigits : (Bytes.ofNat offset).length ≤ 4 :=
    Bytes.length_ofNat_le (by decide) (by omega)
  have hcommand : (ofAscii "VM_READ").length = 7 := rfl
  simp only [readRequest, length_append, length_cons, Bytes.length_toHex, hcommand]
  omega

/-- **The daemon answers with a piece of the file.** -/
theorem serve_piece (hlong : 2 ^ 31 ≤ long) (hname : IsProgramName name)
    (hfile : files name = some file) (hpos : 1 ≤ file.length) (hle : file.length ≤ 1024)
    (hoffset : offset ≤ file.length) (device : Action → Bytes) :
    serve long files (some n) device (ofAscii "NRP/1 1 " ++ readRequest offset name ++ [10]) =
      ofAscii "NRP/1 1 OK " ++ pieceText file offset n ++ [10] := by
  have hstart : (ofAscii "NRP/1 1 ").length = 8 := rfl
  have hrequest := length_readRequest hname.le_eighty (hoffset.trans hle)
  have hreceive : receiveLine 511 [] (ofAscii "NRP/1 1 " ++ readRequest offset name ++ [10]) =
      .line (ofAscii "NRP/1 1 " ++ readRequest offset name) := by
    refine receiveLine_line (fun c hc ↦ ?_) ?_ [] []
    · rcases mem_append.mp hc with hc | hc
      · exact (by decide : ∀ c ∈ ofAscii "NRP/1 1 ", c ≠ 0 ∧ c ≠ 10) c hc
      · exact mem_readRequest hc
    · rw [length_append, hstart]
      omega
  have hscan : scanRequest (2 * long) (ofAscii "NRP/1 1 " ++ readRequest offset name) =
      (1, some (ofAscii "VM_READ", Bytes.ofNat offset ++ 32 :: Bytes.toHex name)) := by
    rw [readRequest, ← append_assoc]
    refine scanRequest_words (by omega) (by decide) (by decide) (by decide) ?_
    obtain ⟨b, digits, hb⟩ := exists_cons_of_ne_nil (Bytes.ofNat_ne_nil offset)
    have hspace := Bytes.isSpace_of_isDigit
      (Bytes.isDigit_of_mem_ofNat (hb ▸ mem_cons_self : b ∈ Bytes.ofNat offset))
    rw [hb]
    simpa using hspace
  have hne : pieceText file offset n ≠ [] :=
    ne_nil_of_length_pos (by simp [pieceText, ofAscii])
  have hlength := length_pieceText hle offset n
  rw [serve, handle, hreceive]
  dsimp only
  rw [hscan]
  dsimp only
  rw [dispatch_vmRead, flatMap_singleton, answer, if_pos rfl,
    vmRead_piece hlong hname hfile hpos hle hoffset, respond]
  have hone : Bytes.ofNat 1 = [49] := by decide
  have hwords : ofAscii "NRP/1 1 OK " = ofAscii "NRP/1 " ++ [49] ++ 32 :: ofAscii "OK" ++ [32] := by
    decide
  have hreply : ofAscii "NRP/1 " ++ Bytes.ofNat 1 ++ 32 :: ofAscii "OK" ++
      (if (pieceText file offset n).isEmpty then [] else 32 :: pieceText file offset n) ++ [10] =
        ofAscii "NRP/1 1 OK " ++ pieceText file offset n ++ [10] := by
    rw [if_neg (by simpa using hne), hone, hwords]
    simp
  have hfits : (ofAscii "NRP/1 1 OK ").length = 11 := rfl
  rw [hreply, if_pos]
  simp only [length_append, length_cons, length_nil, hfits]
  omega

end Neo

/-! ## The way back -/

namespace Iris

variable {file : Bytes} {offset n : Nat}

theorem recvReply_line {line : Bytes} (hline : 10 ∉ line) (hlength : line.length ≤ 510)
    {pieces : List Bytes} (hpieces : [] ∉ pieces) {reply : Bytes} (hreply : 10 ∉ reply)
    (hall : reply ++ pieces.flatten = line ++ [10]) : recvReply reply pieces = line ++ [10] := by
  induction pieces generalizing reply with
  | nil =>
    rw [flatten_nil, append_nil] at hall
    exact absurd (hall ▸ by simp) hreply
  | cons piece pieces ih =>
    obtain ⟨hpiece, hpieces⟩ := not_or.mp (mt mem_cons.mpr hpieces)
    have htotal := congrArg List.length hall
    simp only [flatten_cons, length_append, length_cons, length_nil] at htotal
    have hshort : reply.length ≤ line.length := by
      by_contra hlong
      have hinside : line ++ [10] <+: reply := by
        refine prefix_of_prefix_length_le (prefix_refl _)
          (hall ▸ prefix_append reply _) ?_
        simp
        omega
      exact hreply (hinside.subset (by simp))
    have htake : piece.take (511 - reply.length) = piece := take_of_length_le (by omega)
    rw [recvReply, if_neg]
    · dsimp only
      rw [htake]
      split
      · rename_i hbreak
        have hfirst : reply ++ piece <+: line ++ [10] :=
          ⟨pieces.flatten, by rw [append_assoc]; exact hall⟩
        rcases prefix_concat_iff.mp hfirst with h | h
        · exact h
        · exact absurd (h.subset hbreak) hline
      · rename_i hbreak
        refine ih hpieces hbreak ?_
        rw [append_assoc]
        exact hall
    · have hroom : reply.length + 1 < 512 := by omega
      simp [hroom, Ne.symm hpiece]

/-- **What comes with an answer is read.** -/
theorem readReply_ok {payload : Bytes} (hpayload : ∀ b ∈ payload, b ≠ 0 ∧ isBreak b = false) :
    (readReply (ofAscii "NRP/1 1 OK " ++ payload ++ [10])).ok = true ∧
      (readReply (ofAscii "NRP/1 1 OK " ++ payload ++ [10])).detail = payload := by
  have hwords : ofAscii "NRP/1 1 OK " ++ payload ++ [10] = ofAscii "NRP/1" ++
      ([32] ++ (ofAscii "1" ++ ([32] ++ (ofAscii "OK " ++ payload ++ [10])))) := by
    simp [ofAscii]
  have htext : text (ofAscii "NRP/1 1 OK " ++ payload ++ [10]) =
      ofAscii "NRP/1 1 OK " ++ payload ++ [10] := by
    refine text_of_ne_zero fun c hc ↦ ?_
    simp only [mem_append, mem_singleton] at hc
    rcases hc with (hc | hc) | rfl
    · exact (by decide : ∀ c ∈ ofAscii "NRP/1 1 OK ", c ≠ 0) c hc
    · exact (hpayload c hc).1
    · decide
  have hafter : (after [32] (ofAscii "NRP/1 1 OK " ++ payload ++ [10])).bind
      (after [32]) = some (ofAscii "OK " ++ payload ++ [10]) := by
    rw [hwords, after_append_of_not_mem (by decide),
      after_append_self (by decide), Option.bind_some,
      after_append_of_not_mem (by decide), after_append_self (by decide)]
  have hline : (ofAscii "OK " ++ payload ++ [10]).takeWhile (fun c ↦ !isBreak c) =
      ofAscii "OK " ++ payload := by
    rw [takeWhile_append_of_pos]
    · simp [isBreak]
    intro c hc
    rcases mem_append.mp hc with hc | hc
    · exact (by decide : ∀ c ∈ ofAscii "OK ", (!isBreak c) = true) c hc
    · simp [(hpayload c hc).2]
  have hstart : (ofAscii "NRP/1 1 ").isPrefixOf
      (ofAscii "NRP/1 1 OK " ++ payload ++ [10]) = true := by
    refine isPrefixOf_iff_prefix.mpr ?_
    exact ⟨ofAscii "OK " ++ payload ++ [10], by simp [ofAscii]⟩
  have hok : (ofAscii "OK").isPrefixOf (ofAscii "OK " ++ payload) = true := by
    refine isPrefixOf_iff_prefix.mpr ?_
    exact ⟨32 :: payload, by simp [ofAscii]⟩
  have hspace : ((ofAscii "OK " ++ payload).drop 2).head?.all (· = 32) = true := rfl
  have hdetail : (ofAscii "OK " ++ payload).drop 3 = payload := rfl
  have hne : (ofAscii "NRP/1 1 OK " ++ payload ++ [10]).isEmpty = false := rfl
  have hbreak : 10 ∈ ofAscii "NRP/1 1 OK " ++ payload ++ [10] := by simp
  have hread : ∃ value, readReply (ofAscii "NRP/1 1 OK " ++ payload ++ [10]) =
      ⟨true, value, payload⟩ := by
    rw [readReply, if_neg (by simp only [hne, hbreak, not_true_eq_false, decide_false,
      Bool.or_false, Bool.false_eq_true, not_false_eq_true])]
    dsimp only
    rw [htext, hstart, hafter]
    dsimp only
    rw [hline, hok, hspace, hdetail]
    exact ⟨_, rfl⟩
  obtain ⟨value, hread⟩ := hread
  rw [hread]
  exact ⟨rfl, rfl⟩

/-! ## What a piece says -/

/-- `field` looks behind a field that lacks one of the bytes of the key. -/
theorem field_skip {key : String} (b : UInt8) (hkey : 32 ∉ ofAscii key ∧ b ∈ ofAscii key)
    {word : String} (hword : b ∉ ofAscii word ∧ Bytes.isDigit b = false) (m : Nat) (rest : Bytes) :
    field (ofAscii word ++ Bytes.ofNat m ++ 32 :: rest) key = field rest key := by
  have hfront : b ∉ ofAscii word ++ Bytes.ofNat m := by
    intro hb
    rcases mem_append.mp hb with hb | hb
    · exact hword.1 hb
    · exact absurd (Bytes.isDigit_of_mem_ofNat hb) (by simp [hword.2])
  rw [field, after_separator hkey.1 hkey.2 hfront, field]

theorem field_self {key : String} (hkey : ofAscii key ≠ []) {value : Bytes} (hvalue : 32 ∉ value)
    {rest : Bytes} (hrest : rest.head?.all (· = 32) = true) :
    field (ofAscii key ++ value ++ rest) key = value := by
  have hall : ∀ b ∈ value, decide (b ≠ 32) = true := by
    intro b hb
    rw [decide_eq_true_eq]
    rintro rfl
    exact hvalue hb
  rw [field, append_assoc, after_append_self hkey]
  dsimp only
  rw [takeWhile_append_of_pos hall]
  cases rest with
  | nil => rw [takeWhile_nil, append_nil]
  | cons c rest =>
    have hc : c = 32 := by simpa using hrest
    simp [hc]

theorem space_not_mem_ofNat (m : Nat) : 32 ∉ Bytes.ofNat m := fun h ↦ (Neo.mem_ofNat h).2.2.2 rfl

theorem field_size (file : Bytes) (offset n : Nat) :
    field (Neo.pieceText file offset n) "size=" = Bytes.ofNat file.length := by
  rw [Neo.pieceText, field_skip 122 (by decide) (by decide)]
  exact field_self (by decide) (space_not_mem_ofNat _) rfl

theorem field_eof (file : Bytes) (offset n : Nat) :
    field (Neo.pieceText file offset n) "eof=" =
      Bytes.ofNat (if offset + (Neo.piece file offset n).length = file.length then 1 else 0) := by
  rw [Neo.pieceText, field_skip 102 (by decide) (by decide), field_skip 102 (by decide) (by decide)]
  exact field_self (by decide) (space_not_mem_ofNat _) rfl

theorem field_data (file : Bytes) (offset n : Nat) :
    field (Neo.pieceText file offset n) "data=" = Bytes.toHex (Neo.piece file offset n) := by
  have hspace : 32 ∉ Bytes.toHex (Neo.piece file offset n) := fun h ↦
    (Neo.isHex_of_mem h).2.2.2.2 rfl
  have hself : field (ofAscii "data=" ++ Bytes.toHex (Neo.piece file offset n) ++ []) "data=" =
      Bytes.toHex (Neo.piece file offset n) := field_self (by decide) hspace rfl
  rw [append_nil] at hself
  rw [Neo.pieceText, field_skip 100 (by decide) (by decide), field_skip 100 (by decide) (by decide),
    field_skip 100 (by decide) (by decide)]
  exact hself

theorem toInt_ofNat {m : Nat} (hm : m < 2 ^ 31) : CommandDispatcher.toInt (Bytes.ofNat m) = m := by
  have h : strtoSigned (2 ^ 31) (Bytes.ofNat m ++ []) = (↑m, [], false) :=
    strtoSigned_ofNat hm rfl
  rw [append_nil] at h
  rw [CommandDispatcher.toInt, h]

/-! ## The buffer -/

/-- The digits of some bytes put the bytes where they belong. -/
theorem decode_toHex (buffer : VmBuffer) (offset : Nat) (bytes : Bytes) :
    ∃ result, buffer.decode offset (Bytes.toHex bytes) = (result, true) ∧
      (List.range (offset + bytes.length)).map result.byteAt =
        (List.range offset).map buffer.byteAt ++ bytes := by
  induction bytes generalizing buffer offset with
  | nil => exact ⟨buffer, rfl, by simp⟩
  | cons b bytes ih =>
    have hlt := b.toNat_lt
    obtain ⟨result, hdecode, hresult⟩ := ih (buffer.put offset b) (offset + 1)
    have hbefore : (List.range (offset + 1)).map (buffer.put offset b).byteAt =
        (List.range offset).map buffer.byteAt ++ [b] := by
      rw [range_succ, map_append]
      congr 1
      · refine map_congr_left fun i hi ↦ ?_
        exact Function.update_of_ne (mem_range.mp hi).ne _ _
      · simp [VmBuffer.put]
    refine ⟨result, ?_, ?_⟩
    · rw [Bytes.toHex_cons, VmBuffer.decode, nibble, nibble, Bytes.hexValue_hexDigit (by omega),
        Bytes.hexValue_hexDigit (by omega)]
      dsimp only
      rw [Bytes.ofNat_digits, hdecode]
    · rw [length_cons, show offset + (bytes.length + 1) = offset + 1 + bytes.length by omega,
        hresult, hbefore, append_assoc, singleton_append]

variable {buffer : VmBuffer}

/-- The digits of a piece reach no further than their number says. -/
theorem lt_of_mem_decode {offset : Nat} {data : Bytes} {i : Nat}
    (hi : i ∈ (buffer.decode offset data).1.touched) :
    i ∈ buffer.touched ∨ i < offset + data.length / 2 := by
  fun_induction VmBuffer.decode buffer offset data with
  | case1 buffer offset high low data h hhigh l hlow ih =>
    rcases ih hi with hi | hi
    · rcases mem_append.mp hi with hi | hi
      · exact .inl hi
      rw [mem_singleton] at hi
      simp only [length_cons]
      omega
    · simp only [length_cons]
      omega
  | case2 | case3 => exact .inl hi

/-! ## Anything at the other end -/

/-- What holds of a download whatever the answers are. -/
structure Download.Sound (download : Download) : Prop where
  /-- Nothing is written outside the buffer. -/
  inside : ∀ i ∈ download.buffer.touched, i < 1024
  /-- What is stored has the size that every piece announced. -/
  announced : ∀ store, download.outcome = .ok store →
    download.sizes ≠ [] ∧ ∀ size ∈ download.sizes, size = store.bytes.length

theorem Download.Sound.of_error (hinside : ∀ i ∈ buffer.touched, i < 1024)
    (sizes : List Int) (result : NeoResult) : (⟨buffer, sizes, .error result⟩ : Download).Sound :=
  ⟨hinside, fun _ h ↦ nomatch h⟩

variable {size : Int} {expected : Nat}

/-- A piece that is not refused: its size is the one that is expected, and it ends within it. -/
theorem valid_chunk {offset length : Nat}
    (hchunk : ¬ (decide (size ≤ 0) || decide (1024 < size) ||
      decide (expected ≠ 0) && decide (expected ≠ size.toNat) || decide (length % 2 ≠ 0) ||
      decide (256 < length) || decide (size.toNat < offset + length / 2)) = true) :
    0 < size ∧ size ≤ 1024 ∧ (expected = 0 ∨ expected = size.toNat) ∧
      offset + length / 2 ≤ size.toNat := by
  simp only [Bool.or_eq_true, Bool.and_eq_true, decide_eq_true_eq, not_or, not_and_or,
    not_not] at hchunk
  omega

theorem inside_decode (hinside : ∀ i ∈ buffer.touched, i < 1024) {offset : Nat} {data : Bytes}
    (hle : size ≤ 1024) (hend : offset + data.length / 2 ≤ size.toNat) {result : VmBuffer}
    {whole : Bool} (hdecode : buffer.decode offset data = (result, whole)) :
    ∀ i ∈ result.touched, i < 1024 := by
  intro i hi
  rcases lt_of_mem_decode (hdecode ▸ hi : i ∈ (buffer.decode offset data).1.touched) with h | h
  · exact hinside i h
  · omega

theorem sizes_append {sizes : List Int}
    (hsizes : ∀ size ∈ sizes, expected ≠ 0 ∧ size = expected) (hpos : 0 < size)
    (hexpected : expected = 0 ∨ expected = size.toNat) :
    ∀ s ∈ sizes ++ [size], size.toNat ≠ 0 ∧ s = size.toNat := by
  intro s hs
  rcases mem_append.mp hs with hs | hs
  · obtain ⟨hne, heq⟩ := hsizes s hs
    omega
  · rw [mem_singleton] at hs
    omega

/-- **The loop is sound for all answers.**  While it goes on, the sizes that have been announced are
the expected one. -/
theorem downloadLoop_sound (neo : Nat → Bytes → NeoResult) (filename : Bytes) (replace : Bool)
    (round offset expected : Nat) (buffer : VmBuffer) (sizes : List Int)
    (hinside : ∀ i ∈ buffer.touched, i < 1024)
    (hsizes : ∀ size ∈ sizes, expected ≠ 0 ∧ size = expected) :
    (downloadLoop neo filename replace round offset expected buffer sizes).Sound := by
  fun_induction downloadLoop neo filename replace round offset expected buffer sizes with
  | case1 | case2 | case3 => exact .of_error hinside _ _
  | case4 round offset expected _ _ _ _ _ _ _ _ hchunk _ hdecode
  | case5 round offset expected _ _ _ _ _ _ _ _ _ hchunk _ hdecode
  | case7 round offset expected _ _ _ _ _ _ _ _ _ hchunk _ hdecode =>
    obtain ⟨_, hle, _, hend⟩ := valid_chunk hchunk
    exact .of_error (inside_decode hinside hle hend hdecode) _ _
  | case6 round offset expected _ _ _ _ _ size _ _ _ hchunk _ hdecode _ _ hnext =>
    obtain ⟨hpos, hle, hexpected, hend⟩ := valid_chunk hchunk
    refine ⟨inside_decode hinside hle hend hdecode, ?_⟩
    rintro store ⟨⟩
    refine ⟨append_ne_nil_of_right_ne_nil _ (cons_ne_nil _ _), fun s hs ↦ ?_⟩
    rw [length_map, length_range, not_not.mp hnext]
    exact (sizes_append hsizes hpos hexpected s hs).2
  | case8 round offset expected _ _ _ _ _ _ _ _ _ hchunk _ hdecode _ _ _ ih =>
    obtain ⟨hpos, hle, hexpected, hend⟩ := valid_chunk hchunk
    exact ih (inside_decode hinside hle hend hdecode) (sizes_append hsizes hpos hexpected)

/-- **Every download is sound.** -/
theorem vmDownload_sound (neo : Nat → Bytes → NeoResult) (memory : Nat → UInt8)
    (arguments : List Int) (filename : Bytes) :
    (vmDownload neo memory arguments filename).Sound := by
  have hnone : ∀ i ∈ (⟨memory, []⟩ : VmBuffer).touched, i < 1024 := fun _ h ↦ nomatch h
  rw [vmDownload]
  split
  · exact .of_error hnone _ _
  · exact downloadLoop_sound _ _ _ _ _ _ _ _ hnone fun _ h ↦ nomatch h

/-! ## Neo at the other end -/

/-- **A request gets the piece it asks for**, in whatever pieces the answer comes. -/
theorem neoRequest_piece {long : Nat} {files : Bytes → Option Bytes} {name : Bytes}
    (hlong : 2 ^ 31 ≤ long) (hname : Neo.IsProgramName name) (hfile : files name = some file)
    (hpos : 1 ≤ file.length) (hle : file.length ≤ 1024) (hoffset : offset ≤ file.length)
    (device : Neo.Action → Bytes) {cut : Bytes → List Bytes}
    (hcut : ∀ reply, (cut reply).flatten = reply ∧ [] ∉ cut reply) :
    (neoRequest (.answered fun request ↦ cut (Neo.serve long files (some n) device request))
        (readCommand offset (hexText name))).ok = true ∧
      (neoRequest (.answered fun request ↦ cut (Neo.serve long files (some n) device request))
        (readCommand offset (hexText name))).detail = Neo.pieceText file offset n := by
  have hcommand : readCommand offset (hexText name) = Neo.readRequest offset name := by
    simp [readCommand, hexText, Neo.readRequest, ofAscii]
  have hrequest : requestText (Neo.readRequest offset name) =
      some (ofAscii "NRP/1 1 " ++ Neo.readRequest offset name ++ [10]) := by
    have hstart : (ofAscii "NRP/1 1 ").length = 8 := rfl
    have hshort := Neo.length_readRequest hname.le_eighty (hoffset.trans hle)
    rw [requestText, text_of_ne_zero fun b hb ↦ (Neo.mem_readRequest hb).1, if_pos]
    simp only [length_append, length_cons, length_nil, hstart]
    omega
  obtain ⟨hflatten, hpieces⟩ := hcut (ofAscii "NRP/1 1 OK " ++ Neo.pieceText file offset n ++ [10])
  have hrecv : recvReply [] (cut (ofAscii "NRP/1 1 OK " ++ Neo.pieceText file offset n ++ [10])) =
      ofAscii "NRP/1 1 OK " ++ Neo.pieceText file offset n ++ [10] := by
    refine recvReply_line (fun hbreak ↦ ?_) ?_ hpieces not_mem_nil hflatten
    · rcases mem_append.mp hbreak with h | h
      · exact absurd h (by decide)
      · exact absurd (Neo.mem_pieceText h).2 (by decide)
    have hstart : (ofAscii "NRP/1 1 OK ").length = 11 := rfl
    have hshort := Neo.length_pieceText hle offset n
    rw [length_append, hstart]
    omega
  rw [neoRequest, hcommand, hrequest]
  dsimp only
  rw [Neo.serve_piece hlong hname hfile hpos hle hoffset, hrecv]
  exact readReply_ok fun b hb ↦ Neo.mem_pieceText hb

/-- **The loop stores the file.**  Each round appends a piece that is not empty to what is there
already. -/
theorem downloadLoop_stores {name : Bytes} {neo : Nat → Bytes → NeoResult}
    (hneo : ∀ round offset, offset ≤ file.length → ∃ n, 1 ≤ n ∧
      (neo round (readCommand offset (hexText name))).ok = true ∧
      (neo round (readCommand offset (hexText name))).detail = Neo.pieceText file offset n)
    (hle : file.length ≤ 1024) (replace : Bool) (round : Nat)
    (hexpected : expected = 0 ∨ expected = file.length)
    (hbuffer : (List.range offset).map buffer.byteAt = file.take offset) (sizes : List Int)
    (hoffset : offset < file.length) :
    (downloadLoop neo name replace round offset expected buffer sizes).outcome =
      .ok ⟨name.take (name.length - 4), file, replace⟩ := by
  induction hrest : file.length - offset using Nat.strong_induction_on
    generalizing round offset expected buffer sizes with
  | _ rest ih =>
    obtain ⟨n, hn, hok, hdetail⟩ := hneo round offset hoffset.le
    have hpiece := Neo.length_piece file offset n
    obtain ⟨result, hdecode, hresult⟩ := decode_toHex buffer offset (Neo.piece file offset n)
    have hhalf : (Bytes.toHex (Neo.piece file offset n)).length / 2 =
        (Neo.piece file offset n).length := by
      rw [Bytes.length_toHex]
      omega
    have htaken : (List.range (offset + (Neo.piece file offset n).length)).map result.byteAt =
        file.take (offset + (Neo.piece file offset n).length) := by
      rw [hresult, hbuffer, take_add]
      congr 1
      rw [Neo.piece, length_take, take_eq_take_iff]
      omega
    have hchunk : ¬ (decide ((file.length : Int) ≤ 0) || decide (1024 < (file.length : Int)) ||
        decide (expected ≠ 0) && decide (expected ≠ (file.length : Int).toNat) ||
        decide ((Bytes.toHex (Neo.piece file offset n)).length % 2 ≠ 0) ||
        decide (256 < (Bytes.toHex (Neo.piece file offset n)).length) ||
        decide ((file.length : Int).toNat <
          offset + (Bytes.toHex (Neo.piece file offset n)).length / 2)) = true := by
      simp only [Bool.or_eq_true, Bool.and_eq_true, decide_eq_true_eq, not_or, not_and_or, not_not,
        Bytes.length_toHex]
      omega
    rw [downloadLoop, dif_neg (by omega)]
    simp only [hok, hdetail, field_size, field_data, field_eof,
      toInt_ofNat (show file.length < 2 ^ 31 by omega), Bool.not_true, Bool.false_eq_true, if_false]
    rw [dif_neg hchunk, hdecode]
    dsimp only
    by_cases hend : offset + (Neo.piece file offset n).length = file.length
    · rw [if_pos hend, if_pos (by decide), hhalf, if_neg (by omega), htaken, hend, take_length]
    have hmore : (List.isEmpty (Bytes.toHex (Neo.piece file offset n)) ||
        decide (Bytes.ofNat 0 ≠ ofAscii "0")) = false := by
      rw [Bool.or_eq_false_iff, isEmpty_eq_false_iff]
      refine ⟨ne_nil_of_length_pos ?_, by decide⟩
      rw [Bytes.length_toHex]
      omega
    rw [if_neg hend, if_neg (by decide), dif_neg (by rw [hmore]; decide), hhalf]
    exact ih _ (by omega) _ (.inr (Int.toNat_natCast _)) htaken _ (by omega) rfl

end Iris

/-! ## The result -/

open Iris in
/-- **A download stores the file, and nothing else is stored or written.**  Neo has a regular file
of at most 1024 bytes under the name, `pread` returns at least one byte each time, and the answers
come in pieces that are not empty: then the program is stored once, with the bytes of the file.  And
for all answers to all requests, nothing is written outside the buffer of 1024 bytes, and what is
stored has as many bytes as every piece announced. -/
theorem vm_download {long : Nat} (hlong : 2 ^ 31 ≤ long) {files : Bytes → Option Bytes}
    {name file : Bytes} (hname : Neo.IsProgramName name) (hfile : files name = some file)
    (hpos : 1 ≤ file.length) (hle : file.length ≤ 1024) {preads : Nat → Nat}
    (hpreads : ∀ round, 1 ≤ preads round) (device : Neo.Action → Bytes)
    {cut : Nat → Bytes → List Bytes}
    (hcut : ∀ round reply, (cut round reply).flatten = reply ∧ [] ∉ cut round reply)
    {arguments : List Int} (harguments : arguments ∈ [[], [0], [1]]) (memory : Nat → UInt8) :
    (vmDownload (fun round ↦ neoRequest (.answered fun request ↦
        cut round (Neo.serve long files (some (preads round)) device request)))
      memory arguments name).outcome =
        .ok ⟨name.take (name.length - 4), file, arguments = [1]⟩ ∧
    ∀ (neo : Nat → Bytes → NeoResult) (arguments : List Int) (filename : Bytes),
      (∀ i ∈ (vmDownload neo memory arguments filename).buffer.touched, i < 1024) ∧
      ∀ store, (vmDownload neo memory arguments filename).outcome = .ok store →
        (vmDownload neo memory arguments filename).sizes ≠ [] ∧
        ∀ size ∈ (vmDownload neo memory arguments filename).sizes, size = store.bytes.length := by
  constructor
  · have hfive := hname.five_le
    have heighty := hname.le_eighty
    have hvalid : (decide (1 < arguments.length) ||
        arguments.any (fun a ↦ a ≠ 0 && a ≠ 1)) = false := by
      simp only [mem_cons, not_mem_nil, or_false] at harguments
      rcases harguments with rfl | rfl | rfl <;> decide
    rw [vmDownload, if_neg]
    · refine downloadLoop_stores (fun round offset hoffset ↦ ?_) hle _ 0 (.inl rfl) rfl [] hpos
      exact ⟨preads round, hpreads round,
        neoRequest_piece hlong hname hfile hpos hle hoffset device (hcut round)⟩
    · simp only [hvalid, hname.nvm, Bool.false_or, Bool.not_true, Bool.or_false, Bool.or_eq_true,
        decide_eq_true_eq, not_or]
      omega
  · intro neo arguments filename
    have hsound := vmDownload_sound neo memory arguments filename
    exact ⟨hsound.inside, hsound.announced⟩

/-- A program of three bytes that Neo reads one by one, over a connection that hands over one byte
at a time. -/
theorem vm_download_bytewise :
    (Iris.vmDownload (fun _ ↦ Iris.neoRequest (.answered fun request ↦
        (Neo.serve (2 ^ 63) (fun _ ↦ some [1, 2, 3]) (some 1) (fun _ ↦ []) request).map ([·])))
      (fun _ ↦ 0) [1] (ofAscii "blink.nvm")).outcome =
        .ok ⟨ofAscii "blink", [1, 2, 3], true⟩ :=
  (@vm_download (2 ^ 63) (by decide) (fun _ ↦ some [1, 2, 3]) (ofAscii "blink.nvm") [1, 2, 3]
    ⟨by decide, by decide, by decide, by decide⟩ rfl (by decide) (by decide) (fun _ ↦ 1)
    (fun _ ↦ le_rfl) (fun _ ↦ []) (fun _ reply ↦ reply.map ([·]))
    (fun _ reply ↦ ⟨by rw [← flatMap_def, flatMap_singleton'], by simp⟩) [1] (by decide)
    fun _ ↦ 0).1

end Noobia
