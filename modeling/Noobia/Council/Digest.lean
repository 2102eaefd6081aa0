import Noobia.Council.Sha256
import Noobia.Lib.Fips180

/-!
# The hash is the standard's

`sha256.c` keeps its words in local variables and its input in a buffer that is emptied whenever it
is full, and `sha256_update` copies as much as there is room for.  `digest_correct` says that this
comes to the digest of FIPS 180-4, however the input is cut into pieces, and that `hmac_sha256` is
the HMAC of RFC 2104.

The argument has three parts.  `copyLoop_eq` brings the loop of `sha256_update` down to the bytes of
the piece, one after the other.  `toVariables_block` compares `block` with the compression function
of the standard.  And `Absorbed` is what the context knows of the input so far: hashing anything
that begins with it can go on from here.
-/

namespace Noobia.Council

open List

/-! ## The loop of `sha256_update` -/

namespace Sha256Ctx

/-- `while (n)`: as much is copied as there is room for, and a full block is taken. -/
def copyLoop (c : Sha256Ctx) (data : Bytes) : Sha256Ctx :=
  if hdata : data = [] then c
  else
    let z := min (64 - c.buf.length) data.length
    if hused : c.buf.length + z = 64 then
      copyLoop
        { c with
          h := block c.h (c.buf ++ data.take z)
          buf := []
          used_lt := by decide }
        (data.drop z)
    else
      copyLoop
        { c with
          buf := c.buf ++ data.take z
          used_lt := by
            have := c.used_lt
            rw [List.length_append, List.length_take]
            omega }
        (data.drop z)
  termination_by data.length
  decreasing_by
    all_goals
      have := c.used_lt
      have := List.length_pos_iff.mpr hdata
      rw [List.length_drop]
      omega

/-- `sha256_update`, as it is written. -/
def sha256Update (c : Sha256Ctx) (data : Bytes) : Sha256Ctx :=
  { c with bits := c.bits + UInt64.ofNat data.length * 8 }.copyLoop data

/-- As long as the block does not become full, bytes are put into it. -/
theorem foldl_push_of_lt (c : Sha256Ctx) (data : Bytes) (h : c.buf.length + data.length < 64) :
    data.foldl push c =
      { c with buf := c.buf ++ data, used_lt := by rw [List.length_append]; exact h } := by
  induction data generalizing c with
  | nil => simp only [foldl_nil, append_nil]
  | cons b data ih =>
    rw [length_cons] at h
    have hpush : c.push b =
        { c with
          buf := c.buf ++ [b]
          used_lt := by rw [length_append, length_singleton]; omega } := by
      rw [push, dif_pos (by omega)]
    rw [foldl_cons, hpush, ih]
    · simp only [append_assoc, singleton_append]
    · rw [length_append, length_singleton]
      omega

theorem foldl_push_of_eq (c : Sha256Ctx) (data : Bytes) (h : c.buf.length + data.length = 64) :
    data.foldl push c =
      { c with h := block c.h (c.buf ++ data), buf := [], used_lt := by decide } := by
  have hne : data ≠ [] := by
    intro hnil
    have := c.used_lt
    rw [hnil, length_nil] at h
    omega
  have hinit : c.buf.length + data.dropLast.length + 1 = 64 := by
    have := length_pos_iff.mpr hne
    rw [length_dropLast]
    omega
  conv_lhs => rw [← dropLast_append_getLast hne]
  rw [foldl_append, foldl_push_of_lt c data.dropLast (by omega), foldl_cons,
    foldl_nil,
    push, dif_neg (by rw [length_append]; omega)]
  simp only [append_assoc, dropLast_append_getLast]

/-- **The loop takes the bytes of the piece one after the other.** -/
theorem copyLoop_eq (c : Sha256Ctx) (data : Bytes) : c.copyLoop data = data.foldl push c := by
  induction hn : data.length using Nat.strong_induction_on generalizing c data with
  | _ n ih =>
    rw [copyLoop]
    split
    · rename_i hdata
      rw [hdata, foldl_nil]
    rename_i hdata
    have hpos := length_pos_iff.mpr hdata
    have hused := c.used_lt
    dsimp only
    conv_rhs => rw [← take_append_drop (min (64 - c.buf.length) data.length) data]
    have hdrop : (data.drop (min (64 - c.buf.length) data.length)).length < n := by
      rw [length_drop]
      omega
    split
    · rename_i hfull
      rw [ih _ hdrop _ _ rfl, foldl_append, foldl_push_of_eq c (data.take _)]
      rw [length_take]
      omega
    · rename_i hroom
      rw [ih _ hdrop _ _ rfl, foldl_append, foldl_push_of_lt c (data.take _)]
      rw [length_take]
      omega

/-- So it makes no difference that `update` takes the bytes one by one. -/
theorem sha256Update_eq (c : Sha256Ctx) (data : Bytes) : c.sha256Update data = c.update data :=
  copyLoop_eq _ data

end Sha256Ctx

/-! ## A block -/

/-- The words as the standard has them. -/
def Words.toVariables (s : Words) : Fips180.Variables :=
  ⟨s.a.toBitVec, s.b.toBitVec, s.c.toBitVec, s.d.toBitVec, s.e.toBitVec, s.f.toBitVec, s.g.toBitVec,
    s.h.toBitVec⟩

theorem toBitVec_blockWord (p : Bytes) (i : Nat) :
    (blockWord p i).toBitVec = Fips180.messageWord p i := by
  have hword (a b c d : UInt8) :
      ((a.toUInt32 <<< 24) ||| (b.toUInt32 <<< 16) ||| (c.toUInt32 <<< 8) ||| d.toUInt32).toBitVec =
        a.toBitVec ++ b.toBitVec ++ c.toBitVec ++ d.toBitVec := by
    ext i hi
    simp
    grind
  rw [blockWord, hword, Fips180.messageWord, Nat.mul_comm]

/-- The words up to some number, from the latest to the first. -/
def latestWords (p : Bytes) (n : Nat) : List Fips180.Word :=
  ((List.range n).map (Fips180.schedule p)).reverse

theorem getD_latestWords (p : Bytes) {n i : Nat} (h : i < n) :
    (latestWords p n).getD i 0 = Fips180.schedule p (n - 1 - i) := by
  rw [latestWords, getD_eq_getElem?_getD, getElem?_reverse (by simpa using h)]
  simp only [length_map, length_range, getElem?_map]
  rw [getElem?_range (by omega)]
  rfl

variable {p : Bytes}

theorem toBitVec_nextWord {n : Nat} {w : List UInt32} (hn : 16 ≤ n)
    (hw : w.map UInt32.toBitVec = latestWords p n) :
    (nextWord w).toBitVec = Fips180.schedule p n := by
  have hget (i : Nat) (hi : i < n) : (w.getD i 0).toBitVec = Fips180.schedule p (n - 1 - i) := by
    rw [← getD_latestWords p hi, ← hw]
    simp only [getD_eq_getElem?_getD, getElem?_map]
    cases w[i]? with
    | none | some x => rfl
  have hnext : (nextWord w).toBitVec =
      Fips180.smallSigma0 (w.getD 14 0).toBitVec + (w.getD 15 0).toBitVec +
        Fips180.smallSigma1 (w.getD 1 0).toBitVec + (w.getD 6 0).toBitVec := rfl
  rw [hnext, hget 14 (by omega), hget 15 (by omega), hget 1 (by omega), hget 6 (by omega)]
  conv_rhs => rw [Fips180.schedule, if_neg (by omega)]
  rw [show n - 1 - 14 = n - 15 by omega, show n - 1 - 15 = n - 16 by omega,
    show n - 1 - 1 = n - 2 by omega, show n - 1 - 6 = n - 7 by omega]
  ac_rfl

theorem map_extendWords (more : Nat) {n : Nat} {w : List UInt32} (hn : 16 ≤ n)
    (hw : w.map UInt32.toBitVec = latestWords p n) :
    (extendWords more w).map UInt32.toBitVec = latestWords p (n + more) := by
  induction more generalizing n w with
  | zero => exact hw
  | succ more ih =>
    rw [extendWords, ih (n := n + 1) (by omega), Nat.add_assoc, Nat.add_comm 1 more]
    rw [map_cons, toBitVec_nextWord hn hw, hw, latestWords, latestWords, range_succ,
      map_append, reverse_append]
    rfl

theorem map_blockWords (p : Bytes) :
    (blockWords p).map UInt32.toBitVec = (List.range 64).map (Fips180.schedule p) := by
  have hfirst : (((List.range 16).map (blockWord p)).reverse).map UInt32.toBitVec =
      latestWords p 16 := by
    rw [latestWords, map_reverse, map_map]
    congr 1
    refine map_congr_left fun t ht ↦ ?_
    rw [Function.comp_apply, toBitVec_blockWord, Fips180.schedule, if_pos (mem_range.mp ht)]
  rw [blockWords, map_reverse, map_extendWords 48 (by decide) hfirst, latestWords,
    reverse_reverse]

theorem primes_eq : Fips180.primes =
    [2, 3, 5, 7, 11, 13, 17, 19, 23, 29, 31, 37, 41, 43, 47, 53, 59, 61, 67, 71, 73, 79, 83, 89,
    97, 101, 103, 107, 109, 113, 127, 131, 137, 139, 149, 151, 157, 163, 167, 173, 179, 181, 191,
    193, 197, 199, 211, 223, 227, 229, 233, 239, 241, 251, 257, 263, 269, 271, 277, 281, 283,
    293, 307, 311] := by
  decide +kernel

theorem map_roundConstants :
    roundConstants.map UInt32.toBitVec = (List.range 64).map Fips180.constant := by
  have hconstant : Fips180.constant = fun t ↦ Fips180.rootBits 3 (Fips180.primes.getD t 0) := rfl
  rw [hconstant, primes_eq]
  decide +kernel

theorem toVariables_round {t : Nat} {k w : UInt32}
    (hk : k.toBitVec = Fips180.constant t) (hw : w.toBitVec = Fips180.schedule p t) (s : Words) :
    (round s k w).toVariables = Fips180.step p s.toVariables t := by
  rw [Fips180.step, ← hk, ← hw]
  rfl

/-- **A block is compressed as in the standard.** -/
theorem toVariables_rounds {p : Bytes} {ts : List Nat} {ks ws : List UInt32}
    (hks : ks.map UInt32.toBitVec = ts.map Fips180.constant)
    (hws : ws.map UInt32.toBitVec = ts.map (Fips180.schedule p)) (v : Words) :
    ((ks.zip ws).foldl (fun s (k, w) ↦ round s k w) v).toVariables =
      ts.foldl (Fips180.step p) v.toVariables := by
  induction ts generalizing ks ws v with
  | nil =>
    rw [map_nil, map_eq_nil_iff] at hks
    rw [hks, zip_nil_left, foldl_nil, foldl_nil]
  | cons t ts ih =>
    obtain ⟨k, ks, rfl, hk, hks⟩ := map_eq_cons_iff.mp hks
    obtain ⟨w, ws, rfl, hw, hws⟩ := map_eq_cons_iff.mp hws
    rw [zip_cons_cons, foldl_cons, foldl_cons, ih hks hws, toVariables_round hk hw]

theorem toVariables_block (s : Words) (p : Bytes) :
    (block s p).toVariables = Fips180.compress s.toVariables p := by
  have hall := toVariables_rounds map_roundConstants (map_blockWords p) s
  rw [Fips180.compress, ← hall]
  simp only [block, Words.toVariables, UInt32.toBitVec_add, BitVec.add_comm]

theorem toVariables_init : Sha256Ctx.init.h.toVariables = Fips180.initial := by
  have hwords : [Sha256Ctx.init.h.a, Sha256Ctx.init.h.b, Sha256Ctx.init.h.c, Sha256Ctx.init.h.d,
      Sha256Ctx.init.h.e, Sha256Ctx.init.h.f, Sha256Ctx.init.h.g, Sha256Ctx.init.h.h].map
        UInt32.toBitVec =
      (List.range 8).map fun j ↦ Fips180.rootBits 2 (Fips180.primes.getD j 0) := by
    rw [primes_eq]
    decide +kernel
  simp only [List.range, List.range.loop, map_cons, map_nil, List.cons.injEq] at hwords
  rw [Words.toVariables, Fips180.initial]
  simp only [hwords]

/-! ## A message -/

/-- What the context knows of the message so far: hashing anything that begins with it goes on from
here. -/
structure Absorbed (c : Sha256Ctx) (message : Bytes) : Prop where
  /-- The blocks that have been taken. -/
  hash : ∀ rest, Fips180.hashBlocks Fips180.initial (message ++ rest) =
    Fips180.hashBlocks c.h.toVariables (c.buf ++ rest)
  /-- The buffer has what is left over. -/
  used : c.buf.length = message.length % 64

namespace Absorbed

variable {c : Sha256Ctx} {message : Bytes}

theorem push (h : Absorbed c message) (b : UInt8) : Absorbed (c.push b) (message ++ [b]) := by
  have hused := h.used
  rw [Sha256Ctx.push]
  split
  · refine ⟨fun rest ↦ ?_, ?_⟩
    · rw [append_assoc, h.hash, append_assoc]
    · simp only [length_append, length_singleton]
      omega
  · rename_i hfull
    have hblock : (c.buf ++ [b]).length = 64 := by
      have := c.used_lt
      rw [length_append, length_singleton]
      omega
    refine ⟨fun rest ↦ ?_, ?_⟩
    · rw [append_assoc, h.hash, ← append_assoc, Fips180.hashBlocks_append hblock,
        toVariables_block, nil_append]
    rw [length_append, length_singleton] at hblock
    simp only [length_append, length_singleton, length_nil]
    omega

theorem foldl_push (h : Absorbed c message) (data : Bytes) :
    Absorbed (data.foldl Sha256Ctx.push c) (message ++ data) := by
  induction data generalizing c message with
  | nil =>
    rw [append_nil]
    exact h
  | cons b data ih =>
    rw [foldl_cons, ← singleton_append, ← append_assoc]
    exact ih (h.push b)

theorem update (h : Absorbed c message) (data : Bytes) :
    Absorbed (c.update data) (message ++ data) :=
  foldl_push (c := { c with bits := c.bits + UInt64.ofNat data.length * 8 }) ⟨h.hash, h.used⟩ data

end Absorbed

theorem absorbed_init : Absorbed Sha256Ctx.init [] := by
  refine ⟨fun rest ↦ ?_, rfl⟩
  rw [toVariables_init]
  rfl

theorem bits_foldl_push (c : Sha256Ctx) (data : Bytes) :
    (data.foldl Sha256Ctx.push c).bits = c.bits := by
  induction data generalizing c with
  | nil => rfl
  | cons b data ih =>
    rw [foldl_cons, ih, Sha256Ctx.push]
    split
    · rfl
    · rfl

theorem bits_update {c : Sha256Ctx} {length : Nat} (h : c.bits = UInt64.ofNat (8 * length))
    (data : Bytes) : (c.update data).bits = UInt64.ofNat (8 * (length + data.length)) := by
  rw [Sha256Ctx.update, bits_foldl_push]
  dsimp only
  rw [h]
  apply UInt64.toNat_inj.mp
  simp only [UInt64.toNat_add, UInt64.toNat_mul, UInt64.toNat_ofNat', UInt64.reduceToNat]
  omega

/-! ### The end of it -/

theorem wordBytes_eq (word : UInt32) :
    Sha256Ctx.wordBytes word = Fips180.bigEndian 4 word.toBitVec.toNat := by
  simp only [Sha256Ctx.wordBytes, Fips180.bigEndian, List.range, List.range.loop, reverse_cons,
    reverse_nil, nil_append, cons_append, map_cons, map_nil,
    List.cons.injEq, ← UInt8.toNat_inj]
  simp [Nat.shiftRight_eq_div_pow]

/-- Only the last sixty-four bits of the length are written, in both. -/
theorem bitsBytes_eq (n : Nat) : Sha256Ctx.bitsBytes (UInt64.ofNat n) = Fips180.bigEndian 8 n := by
  simp only [Sha256Ctx.bitsBytes, Fips180.bigEndian, List.range, List.range.loop, reverse_cons,
    reverse_nil, nil_append, cons_append, map_cons, map_nil,
    List.cons.injEq, ← UInt8.toNat_inj]
  simp [Nat.shiftRight_eq_div_pow]
  omega

theorem digest_toVariables (s : Words) :
    Sha256Ctx.wordBytes s.a ++ Sha256Ctx.wordBytes s.b ++ Sha256Ctx.wordBytes s.c ++
        Sha256Ctx.wordBytes s.d ++ Sha256Ctx.wordBytes s.e ++ Sha256Ctx.wordBytes s.f ++
        Sha256Ctx.wordBytes s.g ++ Sha256Ctx.wordBytes s.h = Fips180.digest s.toVariables := by
  simp only [wordBytes_eq, Fips180.digest, Words.toVariables, flatMap_cons, flatMap_nil,
    append_assoc, append_nil]

theorem hashBlocks_single {block : Bytes} (hblock : block.length = 64) (hash : Fips180.Variables) :
    Fips180.hashBlocks hash block = Fips180.compress hash block := by
  have h := Fips180.hashBlocks_append hblock hash []
  rw [append_nil, Fips180.hashBlocks_nil] at h
  exact h

/-- **The end of a message is hashed as in the standard.** -/
theorem Absorbed.final {c : Sha256Ctx} {message : Bytes} (h : Absorbed c message)
    (hbits : c.bits = UInt64.ofNat (8 * message.length)) : c.final = Fips180.sha256 message := by
  have hused := h.used
  have hlt := c.used_lt
  have hbytes : (Fips180.bigEndian 8 (8 * message.length)).length = 8 := by
    rw [Fips180.bigEndian, length_map, length_reverse, length_range]
  have hpadded : c.buf ++ (128 :: List.replicate (Fips180.zeros message.length) 0 ++
      Fips180.bigEndian 8 (8 * message.length)) =
      c.buf ++ [128] ++ List.replicate (Fips180.zeros message.length) 0 ++
        Fips180.bigEndian 8 (8 * message.length) := by
    simp only [append_assoc, cons_append, nil_append]
  rw [Fips180.sha256, Fips180.pad, append_assoc, h.hash, hpadded, Sha256Ctx.final]
  split
  rename_i hash buf heq
  rw [digest_toVariables, toVariables_block, hbits, bitsBytes_eq]
  congr 1
  split at heq
  · -- There is no room for the length, so the zeros go to the end of the next block.
    rename_i hroom
    obtain ⟨rfl, rfl⟩ := Prod.mk.inj heq
    rw [length_append, length_singleton] at hroom
    have hzeros : List.replicate (Fips180.zeros message.length) (0 : UInt8) =
        List.replicate (64 - (c.buf ++ [128]).length) 0 ++ List.replicate 56 0 := by
      rw [← replicate_add, Fips180.zeros, length_append, length_singleton]
      congr 1
      omega
    rw [hzeros, ← append_assoc, append_assoc (_ ++ _ ++ _), Fips180.hashBlocks_append,
      toVariables_block, hashBlocks_single]
    · rfl
    · rw [length_append, length_replicate, hbytes]
    · simp only [length_append, length_replicate, length_singleton]
      omega
  · rename_i hroom
    obtain ⟨rfl, rfl⟩ := Prod.mk.inj heq
    rw [length_append, length_singleton] at hroom
    have hzeros : Fips180.zeros message.length = 56 - (c.buf ++ [128]).length := by
      rw [Fips180.zeros, length_append, length_singleton]
      omega
    rw [hzeros, hashBlocks_single]
    simp only [length_append, length_replicate, length_singleton, hbytes]
    omega

/-! ## Hash and keyed hash -/

theorem foldl_update_final (pieces : List Bytes) :
    (pieces.foldl Sha256Ctx.update Sha256Ctx.init).final = Fips180.sha256 pieces.flatten := by
  have hrun (pieces : List Bytes) (c : Sha256Ctx) (message : Bytes) (habsorbed : Absorbed c message)
      (hbits : c.bits = UInt64.ofNat (8 * message.length)) :
      (pieces.foldl Sha256Ctx.update c).final = Fips180.sha256 (message ++ pieces.flatten) := by
    induction pieces generalizing c message with
    | nil =>
      rw [flatten_nil, append_nil]
      exact habsorbed.final hbits
    | cons data pieces ih =>
      rw [foldl_cons, flatten_cons, ← append_assoc]
      refine ih _ _ (habsorbed.update data) ?_
      rw [bits_update hbits, length_append]
  exact hrun pieces _ [] absorbed_init rfl

theorem foldl_sha256Update_final (pieces : List Bytes) :
    (pieces.foldl Sha256Ctx.sha256Update Sha256Ctx.init).final = Fips180.sha256 pieces.flatten := by
  have hupdate : Sha256Ctx.sha256Update = Sha256Ctx.update :=
    funext₂ Sha256Ctx.sha256Update_eq
  rw [hupdate, foldl_update_final]

theorem sha256_eq (data : Bytes) : sha256 data = Fips180.sha256 data := by
  have h := foldl_update_final [data]
  rw [flatten_singleton] at h
  exact h

theorem hmacSha256_eq (key data : Bytes) :
    hmacSha256 key data = Fips180.hmac Fips180.sha256 64 key data := by
  have hpair (first second : Bytes) :
      ((Sha256Ctx.init.update first).update second).final = Fips180.sha256 (first ++ second) := by
    have h := foldl_update_final [first, second]
    rw [flatten_cons, flatten_singleton] at h
    exact h
  rw [hmacSha256, Fips180.hmac, hpair, hpair, sha256_eq]

/-- **The hash is SHA-256, however the message is cut into pieces, and the keyed hash is HMAC.** -/
theorem digest_correct :
    (∀ pieces : List Bytes, (pieces.foldl Sha256Ctx.sha256Update Sha256Ctx.init).final =
      Fips180.sha256 pieces.flatten) ∧
    ∀ key data : Bytes, hmacSha256 key data = Fips180.hmac Fips180.sha256 64 key data := by
  exact ⟨foldl_sha256Update_final, hmacSha256_eq⟩

end Noobia.Council
