import Noobia.Lib.Bytes

/-!
# The hash

`sha256.c`: SHA-256 with a context that takes its input in pieces, and the keyed hash built on it.
Words are `uint32_t`s and the count of bits is a `uint64_t`, so both are Lean's own.

The context holds less than a block at any time, which is part of its type.  The source copies as
much of a piece as there is room for and then takes the block; here the bytes are taken one by one,
and a block when there is one.
-/

namespace Noobia.Council

/-! ## A block -/

/-- `R(x, n)`. -/
def rotateRight (x n : UInt32) : UInt32 := (x >>> n) ||| (x <<< (32 - n))

/-- `k`. -/
def roundConstants : List UInt32 :=
  [0x428a2f98, 0x71374491, 0xb5c0fbcf, 0xe9b5dba5, 0x3956c25b, 0x59f111f1, 0x923f82a4, 0xab1c5ed5,
    0xd807aa98, 0x12835b01, 0x243185be, 0x550c7dc3, 0x72be5d74, 0x80deb1fe, 0x9bdc06a7, 0xc19bf174,
    0xe49b69c1, 0xefbe4786, 0x0fc19dc6, 0x240ca1cc, 0x2de92c6f, 0x4a7484aa, 0x5cb0a9dc, 0x76f988da,
    0x983e5152, 0xa831c66d, 0xb00327c8, 0xbf597fc7, 0xc6e00bf3, 0xd5a79147, 0x06ca6351, 0x14292967,
    0x27b70a85, 0x2e1b2138, 0x4d2c6dfc, 0x53380d13, 0x650a7354, 0x766a0abb, 0x81c2c92e, 0x92722c85,
    0xa2bfe8a1, 0xa81a664b, 0xc24b8b70, 0xc76c51a3, 0xd192e819, 0xd6990624, 0xf40e3585, 0x106aa070,
    0x19a4c116, 0x1e376c08, 0x2748774c, 0x34b0bcb5, 0x391c0cb3, 0x4ed8aa4a, 0x5b9cca4f, 0x682e6ff3,
    0x748f82ee, 0x78a5636f, 0x84c87814, 0x8cc70208, 0x90befffa, 0xa4506ceb, 0xbef9a3f7, 0xc67178f2]

/-- `h[0]` to `h[7]`, or the variables of `block` that start as these. -/
structure Words where
  a : UInt32
  b : UInt32
  c : UInt32
  d : UInt32
  e : UInt32
  f : UInt32
  g : UInt32
  h : UInt32
  deriving DecidableEq

/-- The words of a block before the sixteenth. -/
def blockWord (p : Bytes) (i : Nat) : UInt32 :=
  let byte (j : Nat) : UInt32 := (p.getD (i * 4 + j) 0).toUInt32
  (byte 0 <<< 24) ||| (byte 1 <<< 16) ||| (byte 2 <<< 8) ||| byte 3

/-- The word after these, which are given from the latest to the first. -/
def nextWord (w : List UInt32) : UInt32 :=
  let x := w.getD 14 0
  let y := w.getD 1 0
  (rotateRight x 7 ^^^ rotateRight x 18 ^^^ (x >>> 3)) + w.getD 15 0 +
    (rotateRight y 17 ^^^ rotateRight y 19 ^^^ (y >>> 10)) + w.getD 6 0

/-- So many words more. -/
def extendWords : Nat → List UInt32 → List UInt32
  | 0, w => w
  | n + 1, w => extendWords n (nextWord w :: w)

/-- `w`. -/
def blockWords (p : Bytes) : List UInt32 :=
  (extendWords 48 ((List.range 16).map (blockWord p)).reverse).reverse

/-- One round of `block`, with `k[i]` and `w[i]`. -/
def round (s : Words) (k w : UInt32) : Words :=
  let t1 := s.h + (rotateRight s.e 6 ^^^ rotateRight s.e 11 ^^^ rotateRight s.e 25) +
    ((s.e &&& s.f) ^^^ (~~~s.e &&& s.g)) + k + w
  let t2 := (rotateRight s.a 2 ^^^ rotateRight s.a 13 ^^^ rotateRight s.a 22) +
    ((s.a &&& s.b) ^^^ (s.a &&& s.c) ^^^ (s.b &&& s.c))
  ⟨t1 + t2, s.a, s.b, s.c, s.d + t1, s.e, s.f, s.g⟩

def block (s : Words) (p : Bytes) : Words :=
  let r := (roundConstants.zip (blockWords p)).foldl (fun s (k, w) ↦ round s k w) s
  ⟨s.a + r.a, s.b + r.b, s.c + r.c, s.d + r.d, s.e + r.e, s.f + r.f, s.g + r.g, s.h + r.h⟩

/-! ## The context -/

/-- `sha256_ctx`. -/
structure Sha256Ctx where
  h : Words
  bits : UInt64
  /-- The part of `buf` that is used; `used` is its length. -/
  buf : Bytes
  /-- A full block is taken at once. -/
  used_lt : buf.length < 64

namespace Sha256Ctx

/-- `sha256_init`. -/
def init : Sha256Ctx where
  h := ⟨0x6a09e667, 0xbb67ae85, 0x3c6ef372, 0xa54ff53a, 0x510e527f, 0x9b05688c, 0x1f83d9ab,
    0x5be0cd19⟩
  bits := 0
  buf := []
  used_lt := by decide

/-- A byte more, and the block if it is full. -/
def push (c : Sha256Ctx) (b : UInt8) : Sha256Ctx :=
  if h : c.buf.length + 1 < 64 then
    { c with
      buf := c.buf ++ [b]
      used_lt := by rw [List.length_append]; exact h }
  else
    { c with
      h := block c.h (c.buf ++ [b])
      buf := []
      used_lt := by decide }

/-- `sha256_update`. -/
def update (c : Sha256Ctx) (data : Bytes) : Sha256Ctx :=
  data.foldl push { c with bits := c.bits + UInt64.ofNat data.length * 8 }

/-- `word >> 24`, `word >> 16`, `word >> 8`, `word`. -/
def wordBytes (word : UInt32) : Bytes :=
  [(word >>> 24).toUInt8, (word >>> 16).toUInt8, (word >>> 8).toUInt8, word.toUInt8]

/-- `bits >> 56`, and so on to `bits`. -/
def bitsBytes (bits : UInt64) : Bytes :=
  [(bits >>> 56).toUInt8, (bits >>> 48).toUInt8, (bits >>> 40).toUInt8, (bits >>> 32).toUInt8,
    (bits >>> 24).toUInt8, (bits >>> 16).toUInt8, (bits >>> 8).toUInt8, bits.toUInt8]

/-- `sha256_final`: where there is no room for the count of bits it is in a block of its own. -/
def final (c : Sha256Ctx) : Bytes :=
  let buf := c.buf ++ [0x80]
  let (h, buf) :=
    if 56 < buf.length then (block c.h (buf ++ List.replicate (64 - buf.length) 0), [])
    else (c.h, buf)
  let h := block h (buf ++ List.replicate (56 - buf.length) 0 ++ bitsBytes c.bits)
  wordBytes h.a ++ wordBytes h.b ++ wordBytes h.c ++ wordBytes h.d ++
    wordBytes h.e ++ wordBytes h.f ++ wordBytes h.g ++ wordBytes h.h

@[simp] theorem length_final (c : Sha256Ctx) : c.final.length = 32 := by
  simp [final, wordBytes]

end Sha256Ctx

/-- The hash of some bytes. -/
def sha256 (data : Bytes) : Bytes := (Sha256Ctx.init.update data).final

example : sha256 (Bytes.ofAscii "abc") =
    [186, 120, 22, 191, 143, 1, 207, 234, 65, 65, 64, 222, 93, 174, 34, 35, 176, 3, 97, 163, 150,
      23, 122, 156, 180, 16, 255, 97, 242, 0, 21, 173] := by decide +kernel

def hmacSha256 (key data : Bytes) : Bytes :=
  let kb := if 64 < key.length then sha256 key else key
  let kb := kb ++ List.replicate (64 - kb.length) 0
  let inner := ((Sha256Ctx.init.update (kb.map (· ^^^ 0x36))).update data).final
  ((Sha256Ctx.init.update (kb.map (· ^^^ 0x5c))).update inner).final

@[simp] theorem length_hmacSha256 (key data : Bytes) : (hmacSha256 key data).length = 32 := by
  simp [hmacSha256]

/-- The digits `0` to `9` and `a` to `f`. -/
def hexDigit (n : Nat) : UInt8 := UInt8.ofNat (if n < 10 then 48 + n else 87 + n)

/-- `hex` and `digest_hex`. -/
def hex (bytes : Bytes) : Bytes :=
  bytes.flatMap fun b ↦ [hexDigit (b.toNat >>> 4), hexDigit (b.toNat &&& 15)]

@[simp] theorem length_hex (bytes : Bytes) : (hex bytes).length = 2 * bytes.length := by
  simp [hex, Nat.mul_comm]

theorem isHexDigit_of_mem_hex {bytes : Bytes} {b : UInt8} (h : b ∈ hex bytes) :
    Bytes.isHexDigit b = true := by
  have hdigit : ∀ n : Fin 16, Bytes.isHexDigit (hexDigit n.val) = true := by decide
  simp only [hex, List.mem_flatMap, List.mem_cons, List.not_mem_nil, or_false] at h
  obtain ⟨c, -, rfl | rfl⟩ := h
  · refine hdigit ⟨c.toNat >>> 4, ?_⟩
    have := c.toNat_lt
    rw [Nat.shiftRight_eq_div_pow]
    omega
  · exact hdigit ⟨c.toNat &&& 15, Nat.lt_of_le_of_lt Nat.and_le_right (by decide)⟩

end Noobia.Council
