import Noobia.Vm.Safety

/-!
# What an instruction does exactly

`executeOne_wp` says what every instruction keeps.  For two of them it matters what they do to the
last bit: the arithmetic instructions, and the wait instruction.  `At vm k m` says that nothing has
happened since the beginning of the instruction at the program counter of `vm` but that `k` of its
bytes have been read; with it the text of an instruction can be followed from the top.

The result is one equation for each: `step_arithmetic` and `step_wait`.
-/

namespace Noobia

/-- Byte `k` of the instruction at the program counter. -/
def NoobVm.operand (vm : NoobVm) (k : Nat) : Nat := (vm.program[vm.pc + k]?.getD 0).toNat

/-- The value of a register. -/
def NoobVm.value (vm : NoobVm) (index : Nat) : Int := vm.registers[index]?.getD 0

/-- An instruction `03` to `06` that gets as far as its operation. -/
structure Operation where
  /-- Which of the four it is. -/
  opcode : Nat
  /-- The register the result goes to. -/
  target : Nat
  left : Int
  right : Int
  deriving DecidableEq

/-- The operation of the instruction at the program counter: the instruction is there with all its
bytes, its registers exist, and it does not divide by zero. -/
def NoobVm.operation (vm : NoobVm) : Option Operation :=
  if 0x03 ≤ vm.operand 0 ∧ vm.operand 0 ≤ 0x06 ∧ vm.pc + 4 ≤ vm.programLength ∧
      vm.operand 1 < 8 ∧ vm.operand 2 < 8 ∧ vm.operand 3 < 8 ∧
      ¬ (vm.operand 0 = 0x06 ∧ vm.value (vm.operand 3) = 0) then
    some ⟨vm.operand 0, vm.operand 1, vm.value (vm.operand 2), vm.value (vm.operand 3)⟩
  else none

namespace Vm

open Proc VmProc

variable {W α : Type}

/-- `k` bytes of the instruction at the program counter of `vm` have been read. -/
def At (vm : NoobVm) (k : Nat) (m : Machine W) : Prop := m.vm = { vm with pc := vm.pc + k }

variable {vm : NoobVm} {k : Nat} {m : Machine W}

section

variable (h : At vm k m)

include h

theorem At.pc : m.vm.pc = vm.pc + k := by rw [h]

theorem At.length : m.vm.programLength = vm.programLength := by rw [h]

theorem At.program : m.vm.program = vm.program := by rw [h]

theorem At.registers : m.vm.registers = vm.registers := by rw [h]

theorem At.touch (a : Access) : At vm k (m.touch a) := h

theorem At.advance {n : Nat} (hn : vm.pc + k + n < 2 ^ 16) :
    At vm (k + n) (m.withVm fun vm' ↦ { vm' with pc := (vm.pc + k + n) % 2 ^ 16 }) := by
  rw [Nat.mod_eq_of_lt hn, At, Machine.withVm, Nat.add_assoc]
  exact congrArg (fun vm' : NoobVm ↦ { vm' with pc := vm.pc + (k + n) }) h

end

variable {Q : α → Machine W → Prop} {E : Machine W → Prop}

/-! ## The pieces -/

theorem fault_at (hE : ∀ m', m'.vm.state = .fault → E m') (message : String) :
    Wp (fault message) Q E m :=
  wp_bind (wp_change (wp_exit (hE _ rfl)))

variable {Q : Unit → Machine W → Prop} {natives : VmNatives W} {now : Nat}

theorem need_at {n : Nat} (h : At vm k m) (hok : vm.pc + k + n ≤ vm.programLength → Q () m)
    (hno : ¬ vm.pc + k + n ≤ vm.programLength → ∀ m', m'.vm.state = .fault → E m') :
    Wp (need n) Q E m := by
  refine wp_bind (wp_read (wp_ite (fun hle ↦ wp_pure (hok ?_)) fun hle ↦ fault_at (hno ?_) _))
  · simpa [h.pc, h.length] using hle
  · simpa [h.pc, h.length] using hle

theorem read8_at {Q : Nat → Machine W → Prop} (h : At vm k m) (hlt : vm.pc + k + 1 < 2 ^ 16)
    (hQ : ∀ m', At vm (k + 1) m' → Q (vm.operand k) m') : Wp read8 Q E m := by
  refine wp_bind (wp_read (wp_bind (wp_read (wp_bind (wp_change (wp_bind (wp_change ?_)))))))
  rw [h.pc, h.program]
  exact wp_pure (hQ _ ((h.touch _).advance hlt))

theorem read16_at {Q : Nat → Machine W → Prop} (h : At vm k m) (hlt : vm.pc + k + 2 < 2 ^ 16)
    (hQ : ∀ m', At vm (k + 2) m' → Q (vm.operand k + 256 * vm.operand (k + 1)) m') :
    Wp read16 Q E m := by
  refine wp_bind (wp_read (wp_bind (wp_read (wp_bind (wp_read (wp_bind (wp_change ?_)))))))
  refine wp_bind (wp_change (wp_bind (wp_change ?_)))
  rw [h.pc, h.program]
  exact wp_pure (hQ _ (((h.touch _).touch _).advance hlt))

theorem validRegister_at {i : Nat} (hok : i < 8 → Q () m)
    (hno : ¬ i < 8 → ∀ m', m'.vm.state = .fault → E m') : Wp (validRegister i) Q E m :=
  wp_ite (fun hi ↦ wp_pure (hok hi)) fun hi ↦ fault_at (hno hi) _

theorem getRegister_at {Q : Int → Machine W → Prop} {i : Nat} (h : At vm k m)
    (hQ : ∀ m', At vm k m' → Q (vm.value i) m') : Wp (getRegister i) Q E m := by
  refine wp_bind (wp_change (wp_read ?_))
  rw [show (m.touch (.register i)).vm.registers = vm.registers from h.registers]
  exact hQ _ (h.touch _)

/-! ## The two instructions -/

/-- What an instruction `03` to `06` does. -/
def Computes (vm : NoobVm) (m' : Machine W) : Prop :=
  match vm.operation with
  | some o => m'.vm =
      { vm with
        pc := vm.pc + 4
        registers := vm.registers.setIfInBounds o.target
          (arithmeticResult o.opcode o.left o.right) }
  | none => m'.vm.state = .fault

theorem computes_of_none (h : vm.operation = none) (m' : Machine W) (hm' : m'.vm.state = .fault) :
    Computes vm m' := by
  rw [Computes, h]
  exact hm'

theorem arithmetic_at (hop : 0x03 ≤ vm.operand 0 ∧ vm.operand 0 ≤ 0x06)
    (hlength : vm.programLength ≤ 1024) (h : At vm 1 m) :
    Wp (arithmetic (vm.operand 0)) (fun _ ↦ Computes vm) (Computes vm) m := by
  -- Each of the five checks is one of the conjuncts of `operation`.
  refine wp_bind (need_at h (fun hfit ↦ ?_) fun hno ↦ computes_of_none (if_neg (by omega)))
  refine wp_bind (read8_at h (by omega) fun m1 h1 ↦ ?_)
  refine wp_bind (read8_at h1 (by omega) fun m2 h2 ↦ ?_)
  refine wp_bind (read8_at h2 (by omega) fun m3 h3 ↦ ?_)
  refine wp_bind (validRegister_at (fun hd ↦ ?_) fun hno ↦ computes_of_none
    (if_neg fun hall ↦ hno hall.2.2.2.1))
  refine wp_bind (validRegister_at (fun ha ↦ ?_) fun hno ↦ computes_of_none
    (if_neg fun hall ↦ hno hall.2.2.2.2.1))
  refine wp_bind (validRegister_at (fun hb ↦ ?_) fun hno ↦ computes_of_none
    (if_neg fun hall ↦ hno hall.2.2.2.2.2.1))
  refine wp_bind (getRegister_at h3 fun m4 h4 ↦ ?_)
  refine wp_bind (getRegister_at h4 fun m5 h5 ↦ ?_)
  refine wp_ite (fun hzero ↦ fault_at (computes_of_none (if_neg fun hall ↦ ?_)) _) fun hdiv ↦ ?_
  · exact hall.2.2.2.2.2.2 hzero
  have hoperation : vm.operation = some ⟨vm.operand 0, vm.operand 1, vm.value (vm.operand 2),
      vm.value (vm.operand 3)⟩ := if_pos ⟨hop.1, hop.2, by omega, hd, ha, hb, hdiv⟩
  refine wp_bind (wp_change (wp_change ?_))
  rw [Computes, hoperation]
  exact congrArg (fun vm' : NoobVm ↦ { vm' with
    registers := vm'.registers.setIfInBounds (vm.operand 1)
      (arithmeticResult (vm.operand 0) (vm.value (vm.operand 2)) (vm.value (vm.operand 3))) }) h5

/-- An instruction that is there begins with its first byte. -/
theorem step_at {R : Machine W → Prop} (hlength : m.vm.programLength ≤ 1024)
    (hpc : m.vm.pc < m.vm.programLength)
    (h : ∀ m', At m.vm 1 m' → Wp (execute natives now (m.vm.operand 0)) (fun _ ↦ R) R m') :
    R (m.step natives now) := by
  have hat : At m.vm 0 m := rfl
  refine Wp.final (wp_bind (need_at hat (fun _ ↦ ?_) fun hno ↦ absurd hpc hno))
  exact wp_bind (read8_at hat (by omega) h)

/-- **An arithmetic instruction faults, or writes the wrapped result to its register.** -/
theorem step_arithmetic (hlength : m.vm.programLength ≤ 1024) (hpc : m.vm.pc < m.vm.programLength)
    (hop : 0x03 ≤ m.vm.operand 0 ∧ m.vm.operand 0 ≤ 0x06) : Computes m.vm (m.step natives now) := by
  refine step_at hlength hpc fun m' h ↦ ?_
  rw [execute, if_neg (by omega), if_neg (by omega), if_neg (by omega), if_pos hop]
  exact arithmetic_at hop hlength h

/-- **A wait instruction sets the time to wake at.** -/
theorem step_wait (hlength : m.vm.programLength ≤ 1024) (hpc : m.vm.pc + 3 ≤ m.vm.programLength)
    (hop : m.vm.operand 0 = 0x21) :
    (m.step natives now).vm =
      { m.vm with
        pc := m.vm.pc + 3
        wakeAt := (now + (m.vm.operand 1 + 256 * m.vm.operand 2)) % 2 ^ 32
        state := .waiting } := by
  refine step_at (R := fun m' ↦ m'.vm = _) hlength (by omega) fun m' h ↦ ?_
  rw [hop]
  refine wp_bind (need_at h (fun _ ↦ ?_) fun hno ↦ absurd hpc hno)
  refine wp_bind (read16_at h (by omega) fun m1 h1 ↦ wp_bind (wp_change (wp_change ?_)))
  exact congrArg (fun vm' : NoobVm ↦ { vm' with
    wakeAt := (now + (m.vm.operand 1 + 256 * m.vm.operand 2)) % 2 ^ 32
    state := .waiting }) h1

end Vm

end Noobia
