import Noobia.Vm.Execute

/-!
# Where instructions begin and end

The encoding of a program, apart from anything that runs it.  `width p b` is the number of bytes of
the instruction that begins at `b`, if `p` holds the whole of it, and `target p b` is where it jumps
to, if it is one of the four opcodes that carry an address.

`Discipline A T` is what it takes for a set of positions to be closed under execution: whatever
program `A` admits, `T p` contains its start, is inside it or at its end, and is not left by falling
through an instruction or by taking a jump.  `executeOne` is shown to keep such a set in
`Noobia.Vm.Step`, once for all of them.
-/

namespace Noobia.Vm

/-- The byte at a position, zero past the end. -/
def byteAt (p : Bytes) (i : Nat) : Nat := (p[i]?.getD 0).toNat

/-- The little-endian 16-bit word at a position. -/
def wordAt (p : Bytes) (i : Nat) : Nat := byteAt p i + 256 * byteAt p (i + 1)

theorem byteAt_lt (p : Bytes) (i : Nat) : byteAt p i < 256 := UInt8.toNat_lt _

/-- The number of operand bytes of an opcode that always has the same number. -/
def operandBytes : Nat → Option Nat
  | 0x00 => some 0
  | 0x01 => some 5
  | 0x02 => some 2
  | 0x03 => some 3
  | 0x04 => some 3
  | 0x05 => some 3
  | 0x06 => some 3
  | 0x10 => some 2
  | 0x11 => some 3
  | 0x12 => some 3
  | 0x13 => some 2
  | 0x14 => some 0
  | 0x21 => some 2
  | 0x30 => some 2
  | 0x31 => some 2
  | _ => none

/-- The number of bytes of the instruction at `b`, if `p` holds all of it. -/
def width (p : Bytes) (b : Nat) : Option Nat :=
  if p.length ≤ b then none
  else if byteAt p b = 0x20 then
    if b + 5 ≤ p.length ∧ b + 5 + byteAt p (b + 4) ≤ p.length then some (5 + byteAt p (b + 4))
    else none
  else if byteAt p b = 0x22 then
    if b + 5 ≤ p.length ∧ b + 5 + byteAt p (b + 4) < p.length ∧
        b + 6 + byteAt p (b + 4) + byteAt p (b + 5 + byteAt p (b + 4)) ≤ p.length then
      some (6 + byteAt p (b + 4) + byteAt p (b + 5 + byteAt p (b + 4)))
    else none
  else match operandBytes (byteAt p b) with
    | some k => if b + 1 + k ≤ p.length then some (1 + k) else none
    | none => none

/-- The address the instruction at `b` carries, if it carries one. -/
def target (p : Bytes) (b : Nat) : Option Nat :=
  if byteAt p b = 0x10 ∨ byteAt p b = 0x13 then some (wordAt p (b + 1))
  else if byteAt p b = 0x11 ∨ byteAt p b = 0x12 then some (wordAt p (b + 2))
  else none

variable {p : Bytes} {b k op : Nat}

theorem width_of_fixed (hb : b < p.length) (hop : byteAt p b = op) (hk : operandBytes op = some k) :
    width p b = if b + 1 + k ≤ p.length then some (1 + k) else none := by
  have h20 : byteAt p b ≠ 0x20 := by rintro h; rw [← hop, h] at hk; cases hk
  have h22 : byteAt p b ≠ 0x22 := by rintro h; rw [← hop, h] at hk; cases hk
  rw [width, if_neg (by omega), if_neg h20, if_neg h22, hop, hk]

theorem width_le {w : Nat} (h : width p b = some w) : b + w ≤ p.length := by
  rw [width] at h
  split at h
  · cases h
  split at h
  · split at h
    · cases h; omega
    · cases h
  split at h
  · split at h
    · cases h; omega
    · cases h
  split at h
  · split at h
    · cases h; omega
    · cases h
  · cases h

theorem width_eq_none_of_le (h : p.length ≤ b) : width p b = none := by rw [width, if_pos h]

/-- A set of positions that execution cannot leave. -/
structure Discipline (A : Bytes → Prop) (T : Bytes → Nat → Prop) : Prop where
  /-- The beginning is one of them. -/
  zero : ∀ {p}, A p → T p 0
  /-- None lies past the end. -/
  le : ∀ {p t}, T p t → t ≤ p.length
  /-- Falling through an instruction stays among them. -/
  next : ∀ {p b w}, T p b → width p b = some w → T p (b + w)
  /-- So does a jump. -/
  jump : ∀ {p b t w}, T p b → width p b = some w → target p b = some t → t < p.length → T p t

theorem discipline_le : Discipline (fun _ ↦ True) (fun p t ↦ t ≤ p.length) where
  zero _ := Nat.zero_le _
  le h := h
  next _ h := width_le h
  jump _ _ _ h := Nat.le_of_lt h

end Noobia.Vm
