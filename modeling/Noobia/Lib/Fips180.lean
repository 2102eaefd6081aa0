import Mathlib

/-!
# SHA-256 and HMAC, as the standards state them

SHA-256 in the words of FIPS 180-4, for messages that are made of bytes: the functions of section
4.1, the constants of section 4.2 and 5.3 as the fractional parts of roots of primes, the padding of
section 5.1 and the computation of section 6.2.  HMAC is that of RFC 2104, over any hash.

Nothing here is meant to be fast.  The words of the message schedule are given by their recurrence,
and a message is padded as a whole before its blocks are looked at.
-/

namespace Fips180

open List

/-- A word. -/
abbrev Word := BitVec 32

/-! ## Functions -/

def ch (x y z : Word) : Word := (x &&& y) ^^^ (~~~x &&& z)

def maj (x y z : Word) : Word := (x &&& y) ^^^ (x &&& z) ^^^ (y &&& z)

/-- `Σ₀(x)`. -/
def bigSigma0 (x : Word) : Word := x.rotateRight 2 ^^^ x.rotateRight 13 ^^^ x.rotateRight 22

/-- `Σ₁(x)`. -/
def bigSigma1 (x : Word) : Word := x.rotateRight 6 ^^^ x.rotateRight 11 ^^^ x.rotateRight 25

/-- `σ₀(x)`. -/
def smallSigma0 (x : Word) : Word := x.rotateRight 7 ^^^ x.rotateRight 18 ^^^ x >>> 3

/-- `σ₁(x)`. -/
def smallSigma1 (x : Word) : Word := x.rotateRight 17 ^^^ x.rotateRight 19 ^^^ x >>> 10

/-! ## Constants -/

/-- The first sixty-four primes. -/
def primes : List Nat :=
  (List.range 312).filter fun n ↦ 2 ≤ n && (List.range n).all fun d ↦ d < 2 || n % d != 0

/-- The `k`-th root of `n`, rounded down: `c` is what is found of it, and so many bits are left. -/
def root (k n : Nat) : Nat → Nat → Nat
  | 0, c => c
  | bits + 1, c => root k n bits (if (c + 2 ^ bits) ^ k ≤ n then c + 2 ^ bits else c)

/-- The first thirty-two bits of the fractional part of the `k`-th root of `p`. -/
def rootBits (k p : Nat) : Word := BitVec.ofNat 32 (root k (p * 2 ^ (32 * k)) 40 0)

/-- `K_t`. -/
def constant (t : Nat) : Word := rootBits 3 (primes.getD t 0)

/-! ## A block -/

/-- The hash value, or the working variables. -/
structure Variables where
  a : Word
  b : Word
  c : Word
  d : Word
  e : Word
  f : Word
  g : Word
  h : Word

/-- `H⁽⁰⁾`. -/
def initial : Variables :=
  let bits (j : Nat) := rootBits 2 (primes.getD j 0)
  ⟨bits 0, bits 1, bits 2, bits 3, bits 4, bits 5, bits 6, bits 7⟩

/-- `M_t` of a block. -/
def messageWord (block : List UInt8) (t : Nat) : Word :=
  let byte (j : Nat) : BitVec 8 := (block.getD (4 * t + j) 0).toBitVec
  byte 0 ++ byte 1 ++ byte 2 ++ byte 3

/-- `W_t` of a block. -/
def schedule (block : List UInt8) (t : Nat) : Word :=
  if t < 16 then messageWord block t
  else smallSigma1 (schedule block (t - 2)) + schedule block (t - 7) +
    smallSigma0 (schedule block (t - 15)) + schedule block (t - 16)
  termination_by t
  decreasing_by all_goals omega

/-- Step 3 of the computation, for one `t`. -/
def step (block : List UInt8) (v : Variables) (t : Nat) : Variables :=
  let t1 := v.h + bigSigma1 v.e + ch v.e v.f v.g + constant t + schedule block t
  let t2 := bigSigma0 v.a + maj v.a v.b v.c
  { a := t1 + t2, b := v.a, c := v.b, d := v.c, e := v.d + t1, f := v.e, g := v.f, h := v.g }

/-- `H⁽ⁱ⁾` from `H⁽ⁱ⁻¹⁾`. -/
def compress (hash : Variables) (block : List UInt8) : Variables :=
  let v := (List.range 64).foldl (step block) hash
  ⟨v.a + hash.a, v.b + hash.b, v.c + hash.c, v.d + hash.d, v.e + hash.e, v.f + hash.f,
    v.g + hash.g, v.h + hash.h⟩

/-! ## A message -/

/-- How many bytes of zeros there are in the padding: the least number that leaves room for the
length at the end of a block. -/
def zeros (length : Nat) : Nat := (119 - length % 64) % 64

/-- The bytes of a number of `8 * n` bits, the most significant first. -/
def bigEndian (n : Nat) (x : Nat) : List UInt8 :=
  (List.range n).reverse.map fun i ↦ UInt8.ofNat (x / 256 ^ i)

/-- The padded message. -/
def pad (message : List UInt8) : List UInt8 :=
  message ++ 0x80 :: List.replicate (zeros message.length) 0 ++ bigEndian 8 (8 * message.length)

/-- The hash value of a message of whole blocks. -/
def hashBlocks (hash : Variables) (bytes : List UInt8) : Variables :=
  (List.range (bytes.length / 64)).foldl
    (fun hash i ↦ compress hash ((bytes.drop (64 * i)).take 64)) hash

/-- The message digest. -/
def digest (v : Variables) : List UInt8 :=
  [v.a, v.b, v.c, v.d, v.e, v.f, v.g, v.h].flatMap fun word ↦ bigEndian 4 word.toNat

/-- SHA-256. -/
def sha256 (message : List UInt8) : List UInt8 := digest (hashBlocks initial (pad message))

theorem length_sha256 (message : List UInt8) : (sha256 message).length = 32 := by
  simp [sha256, digest, bigEndian]

/-- HMAC with a hash that works on blocks of so many bytes. -/
def hmac (hash : List UInt8 → List UInt8) (blockBytes : Nat) (key text : List UInt8) : List UInt8 :=
  let key := if blockBytes < key.length then hash key else key
  let key := key ++ List.replicate (blockBytes - key.length) 0
  hash (key.map (· ^^^ 0x5c) ++ hash (key.map (· ^^^ 0x36) ++ text))

/-! ## Blocks one after the other -/

theorem hashBlocks_nil (hash : Variables) : hashBlocks hash [] = hash := rfl

theorem hashBlocks_append {block : List UInt8} (hblock : block.length = 64) (hash : Variables)
    (bytes : List UInt8) :
    hashBlocks hash (block ++ bytes) = hashBlocks (compress hash block) bytes := by
  have hlength : (block ++ bytes).length / 64 = bytes.length / 64 + 1 := by
    rw [length_append, hblock]
    omega
  rw [hashBlocks, hlength, range_succ_eq_map, foldl_cons, foldl_map, Nat.mul_zero,
    drop_zero, take_left' hblock, hashBlocks]
  refine foldl_ext _ _ _ fun hash i _ ↦ ?_
  have hdrop : (block ++ bytes).drop (64 * (i + 1)) = bytes.drop (64 * i) := by
    rw [show 64 * (i + 1) = block.length + 64 * i by omega, drop_length_add_append]
  rw [Nat.succ_eq_add_one, hdrop]

end Fips180
