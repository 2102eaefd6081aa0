import Noobia.Lib.Bytes

/-!
# Base64

Three bytes are four digits of six bits each.  If there is one byte left in the end or two, they are
two digits or three, and the group is filled up with `=`.

`decode_encode` says that decoding leads back.
-/

namespace Base64

open List Bytes

/-- The 64 digits. -/
def alphabet : Bytes :=
  Bytes.ofAscii "ABCDEFGHIJKLMNOPQRSTUVWXYZabcdefghijklmnopqrstuvwxyz0123456789+/"

/-- A digit. -/
def digit (n : Nat) : UInt8 := alphabet.getD n 0

/-- What a digit stands for. -/
def value (c : UInt8) : Option Nat := alphabet.idxOf? c

/-- The bytes of a text, in digits. -/
def encode : Bytes → Bytes
  | [] => []
  | [a] => [digit (a.toNat / 4), digit (a.toNat % 4 * 16), 61, 61]
  | [a, b] =>
    [digit (a.toNat / 4), digit (a.toNat % 4 * 16 + b.toNat / 16), digit (b.toNat % 16 * 4), 61]
  | a :: b :: c :: rest =>
    digit (a.toNat / 4) :: digit (a.toNat % 4 * 16 + b.toNat / 16) ::
      digit (b.toNat % 16 * 4 + c.toNat / 64) :: digit (c.toNat % 64) :: encode rest

/-- The text that the digits stand for. -/
def decode : Bytes → Option Bytes
  | [] => some []
  | w :: x :: y :: z :: rest => do
    let i ← value w
    let j ← value x
    let first := UInt8.ofNat (i * 4 + j / 16)
    if y = 61 ∧ z = 61 ∧ rest = [] then return [first]
    let k ← value y
    let second := UInt8.ofNat (j % 16 * 16 + k / 4)
    if z = 61 ∧ rest = [] then return [first, second]
    let l ← value z
    let more ← decode rest
    return first :: second :: UInt8.ofNat (k % 4 * 64 + l) :: more
  | _ => none

variable {n : Nat}

theorem value_digit (hn : n < 64) : value (digit n) = some n ∧ digit n ≠ 61 := by
  have hall : ∀ n : Fin 64, value (digit n.val) = some n.val ∧ digit n.val ≠ 61 := by decide +kernel
  exact hall ⟨n, hn⟩

theorem isSpace_digit (hn : n < 64) : isSpace (digit n) = false := by
  have hall : ∀ n : Fin 64, isSpace (digit n.val) = false := by decide +kernel
  exact hall ⟨n, hn⟩

theorem isSpace_of_mem_encode {c : UInt8} {bytes : Bytes} (hc : c ∈ encode bytes) :
    isSpace c = false := by
  have hpad : isSpace 61 = false := by decide
  induction bytes using encode.induct with
  | case1 => exact absurd hc not_mem_nil
  | case2 a =>
    have ha := a.toNat_lt
    simp only [encode, mem_cons, not_mem_nil, or_false] at hc
    rcases hc with rfl | rfl | rfl | rfl
    · exact isSpace_digit (by omega)
    · exact isSpace_digit (by omega)
    · exact hpad
    · exact hpad
  | case3 a b =>
    have ha := a.toNat_lt
    have hb := b.toNat_lt
    simp only [encode, mem_cons, not_mem_nil, or_false] at hc
    rcases hc with rfl | rfl | rfl | rfl
    · exact isSpace_digit (by omega)
    · exact isSpace_digit (by omega)
    · exact isSpace_digit (by omega)
    · exact hpad
  | case4 a b c rest ih =>
    have ha := a.toNat_lt
    have hb := b.toNat_lt
    have hc' := c.toNat_lt
    simp only [encode, mem_cons] at hc
    rcases hc with rfl | rfl | rfl | rfl | hc
    · exact isSpace_digit (by omega)
    · exact isSpace_digit (by omega)
    · exact isSpace_digit (by omega)
    · exact isSpace_digit (by omega)
    · exact ih hc

theorem ofNat_eq {a : UInt8} (h : n = a.toNat) : UInt8.ofNat n = a := by
  rw [h, UInt8.ofNat_toNat]

/-- **Decoding leads back.** -/
theorem decode_encode (bytes : Bytes) : decode (encode bytes) = some bytes := by
  induction bytes using encode.induct with
  | case1 => rfl
  | case2 a =>
    have ha := a.toNat_lt
    have hfirst : UInt8.ofNat (a.toNat / 4 * 4 + a.toNat % 4 * 16 / 16) = a := ofNat_eq (by omega)
    rw [encode, decode, (value_digit (by omega)).1, (value_digit (by omega)).1]
    simp only [Option.bind_eq_bind, Option.bind_some, and_self, if_true, hfirst, Option.pure_def]
  | case3 a b =>
    have ha := a.toNat_lt
    have hb := b.toNat_lt
    obtain ⟨hvalue, hpad⟩ := value_digit (show b.toNat % 16 * 4 < 64 by omega)
    have hfirst : UInt8.ofNat (a.toNat / 4 * 4 + (a.toNat % 4 * 16 + b.toNat / 16) / 16) = a :=
      ofNat_eq (by omega)
    have hsecond : UInt8.ofNat ((a.toNat % 4 * 16 + b.toNat / 16) % 16 * 16 +
        b.toNat % 16 * 4 / 4) = b := ofNat_eq (by omega)
    rw [encode, decode, (value_digit (by omega)).1, (value_digit (by omega)).1, hvalue]
    simp only [Option.bind_eq_bind, Option.bind_some, hpad, false_and, if_false, and_self, if_true,
      hfirst, hsecond, Option.pure_def]
  | case4 a b c rest ih =>
    have ha := a.toNat_lt
    have hb := b.toNat_lt
    have hc := c.toNat_lt
    obtain ⟨hthird, hpad⟩ := value_digit (show b.toNat % 16 * 4 + c.toNat / 64 < 64 by omega)
    obtain ⟨hfourth, hpad'⟩ := value_digit (show c.toNat % 64 < 64 by omega)
    have hfirst : UInt8.ofNat (a.toNat / 4 * 4 + (a.toNat % 4 * 16 + b.toNat / 16) / 16) = a :=
      ofNat_eq (by omega)
    have hsecond : UInt8.ofNat ((a.toNat % 4 * 16 + b.toNat / 16) % 16 * 16 +
        (b.toNat % 16 * 4 + c.toNat / 64) / 4) = b := ofNat_eq (by omega)
    have hlast : UInt8.ofNat ((b.toNat % 16 * 4 + c.toNat / 64) % 4 * 64 + c.toNat % 64) = c :=
      ofNat_eq (by omega)
    rw [encode, decode, (value_digit (by omega)).1, (value_digit (by omega)).1, hthird, hfourth, ih]
    simp only [Option.bind_eq_bind, Option.bind_some, hpad, hpad', false_and, if_false, hfirst,
      hsecond, hlast, Option.pure_def]

end Base64
