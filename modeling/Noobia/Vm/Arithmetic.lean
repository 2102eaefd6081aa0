import Noobia.Vm.Edits
import Noobia.Vm.Exact

/-!
# Arithmetic that C++ defines

The registers are `int32_t`, and opcodes `03` to `06` apply the C++ operators to them.  For signed
operands these have a meaning only where the exact result is an `int32_t` again; there is no
wrapping, and what the compiler makes of the other cases is its own affair.  In `Noobia.Vm.Execute`
the result is wrapped, which is what the usual machine does; here the two are compared.

`Operation.evaluate` is the expression as C++ defines it, and `arithmetic_defined_iff` says in which
states of a run an arithmetic instruction has a meaning: division has, except for the least number
divided by minus one, since a divisor of zero is a fault; the other three have if nothing
overflows.
-/

namespace Noobia

open Vm

/-! ## The operators -/

variable {o : Operation}

namespace Operation

/-- The exact result of `registers_[a] + registers_[b]` and its three siblings. -/
def exact (o : Operation) : Int :=
  if o.opcode = 0x03 then o.left + o.right
  else if o.opcode = 0x04 then o.left - o.right
  else if o.opcode = 0x05 then o.left * o.right
  else o.left.tdiv o.right

/-- The expression as C++ defines it. -/
def evaluate (o : Operation) : Option Int :=
  if o.opcode = 0x06 ∧ o.right = 0 then none else represent o.exact

/-- The operands are such that nothing overflows. -/
def Fits (o : Operation) : Prop :=
  (o.opcode = 0x03 → IsInt32 (o.left + o.right)) ∧
  (o.opcode = 0x04 → IsInt32 (o.left - o.right)) ∧
  (o.opcode = 0x05 → IsInt32 (o.left * o.right)) ∧
  (o.opcode = 0x06 → ¬ (o.left = -2 ^ 31 ∧ o.right = -1))
  deriving Decidable

/-- An operation is defined if its operands fit, given that they are numbers of the type and that
the division is not by zero. -/
theorem evaluate_isSome (hop : 0x03 ≤ o.opcode ∧ o.opcode ≤ 0x06)
    (hleft : IsInt32 o.left) (hzero : ¬ (o.opcode = 0x06 ∧ o.right = 0)) :
    o.evaluate.isSome ↔ o.Fits := by
  obtain h | h | h | h : o.opcode = 3 ∨ o.opcode = 4 ∨ o.opcode = 5 ∨ o.opcode = 6 := by omega
  · simp [evaluate, exact, Fits, h, represent_isSome]
  · simp [evaluate, exact, Fits, h, represent_isSome]
  · simp [evaluate, exact, Fits, h, represent_isSome]
  · have hright : o.right ≠ 0 := fun h0 ↦ hzero ⟨h, h0⟩
    simp [evaluate, exact, Fits, h, represent_isSome, hright, isInt32_tdiv hleft hright]

theorem arithmeticResult_eq {value : Int} (h : o.evaluate = some value) :
    VmProc.arithmeticResult o.opcode o.left o.right = value := by
  rw [evaluate, represent] at h
  split at h
  · cases h
  split at h
  · rename_i hexact
    exact (bmod_of_isInt32 hexact).trans (Option.some.inj h)
  · cases h

end Operation

/-! ## The numbers in the registers -/

namespace Vm

variable {W : Type}

/-- Every register holds an `int32_t`. -/
def Typed (vm : NoobVm) : Prop := ∀ index, IsInt32 (vm.value index)

variable {vm : NoobVm}

theorem typed_replicate (h : vm.registers = .replicate 8 0) : Typed vm := by
  intro index
  rw [NoobVm.value, h, Vector.getElem?_replicate]
  split <;> exact isInt32_zero

theorem Typed.set (h : Typed vm) (index : Nat) {value : Int} (hvalue : IsInt32 value)
    {vm' : NoobVm} (hvm' : vm'.registers = vm.registers.setIfInBounds index value) : Typed vm' := by
  intro i
  rw [NoobVm.value, hvm', Vector.getElem?_setIfInBounds]
  split
  · split
    · exact hvalue
    · exact isInt32_zero
  · exact h i

theorem perform_typed (c : VmCall) (h : Typed vm) : Typed (c.perform vm) := by
  have hdone := c.performed vm
  generalize c.perform vm = vm' at hdone ⊢
  cases hdone with
  | refused | run | stop => exact h
  | load | reset => exact typed_replicate rfl

theorem edit_typed {now : Nat} (vm vm' : NoobVm) (h : Typed vm) (hedit : Edit IsInt32 now vm vm') :
    Typed vm' := by
  cases hedit with
  | pc | memory | stack | halt | wait | fault => exact h
  | register index hvalue =>
    refine h.set index ?_ rfl
    obtain hvalue | hvalue | ⟨i, rfl⟩ := hvalue
    · exact hvalue
    · exact hvalue
    · exact h i
  | call c _ => exact perform_typed c h

theorem runOps_typed {natives : VmNatives W} (hnatives : Answers IsInt32 natives) (world : W)
    (ops : List VmOp) : Typed ((Machine.init world).runOps natives ops).vm :=
  Machine.runOps_induction (I := fun m ↦ Typed m.vm) (P := fun _ ↦ True)
    (fun c _ _ h ↦ perform_typed c h) (fun _ h _ ↦ h)
    (fun _ _ h hrun ↦ (step_edits hnatives hrun).invariant edit_typed h)
    (typed_replicate rfl) fun _ _ ↦ trivial

/-! ## The instructions -/

/-- The instruction at the program counter is one of the four. -/
def IsArithmetic (vm : NoobVm) : Prop :=
  vm.pc < vm.programLength ∧ 0x03 ≤ vm.operand 0 ∧ vm.operand 0 ≤ 0x06
  deriving Decidable

/-- What the operation of an instruction is known to be. -/
theorem of_operation (h : vm.operation = some o) :
    (0x03 ≤ o.opcode ∧ o.opcode ≤ 0x06) ∧ (∃ index, o.left = vm.value index) ∧
      ¬ (o.opcode = 0x06 ∧ o.right = 0) := by
  rw [NoobVm.operation] at h
  split at h
  · rename_i hall
    obtain rfl := Option.some.inj h
    exact ⟨⟨hall.1, hall.2.1⟩, ⟨_, rfl⟩, hall.2.2.2.2.2.2⟩
  · cases h

/-- A machine that some history of calls and ticks leads to. -/
def Reachable (natives : VmNatives W) (m : Machine W) : Prop :=
  ∃ world ops, m = (Machine.init world).runOps natives ops

/-- **An arithmetic instruction is defined if and only if its operands fit.**  In every reachable
state, with any program, an arithmetic instruction that is executed either faults and computes
nothing, or applies an operator to two registers; C++ gives that a meaning exactly if the operands
fit, and the instruction then stores the exact result.  A native function answers with an
`int32_t`. -/
theorem arithmetic_defined_iff {natives : VmNatives W} (hnatives : Answers IsInt32 natives)
    {m : Machine W} (hm : Reachable natives m) (now : Nat) (h : IsArithmetic m.vm) :
    (m.vm.operation = none ∧ (m.step natives now).vm.state = .fault) ∨
      ∃ o, m.vm.operation = some o ∧ (o.evaluate.isSome ↔ o.Fits) ∧
        ∀ value, o.evaluate = some value →
          (m.step natives now).vm =
            { m.vm with
              pc := m.vm.pc + 4
              registers := m.vm.registers.setIfInBounds o.target value } := by
  obtain ⟨world, ops, rfl⟩ := hm
  generalize hm : (Machine.init world).runOps natives ops = m at *
  have hlength : m.vm.programLength ≤ 1024 :=
    hm ▸ ((safe_init world).runOps natives ops).1.length_le
  have htyped : Typed m.vm := hm ▸ runOps_typed hnatives world ops
  have hstep : Computes m.vm (m.step natives now) := step_arithmetic hlength h.1 h.2
  rw [Computes] at hstep
  cases ho : m.vm.operation with
  | none =>
    rw [ho] at hstep
    exact .inl ⟨rfl, hstep⟩
  | some o =>
    rw [ho] at hstep
    obtain ⟨hop, ⟨index, hleft⟩, hzero⟩ := of_operation ho
    refine .inr ⟨o, rfl, Operation.evaluate_isSome hop (hleft ▸ htyped index) hzero, ?_⟩
    intro value hvalue
    rw [← Operation.arithmeticResult_eq hvalue]
    exact hstep

/-- A VM without native functions that has executed two instructions of a program. -/
def afterTwo (program : Bytes) : Machine Unit :=
  (Machine.init ()).runOps ⟨[]⟩ [.call (.load program), .call .run, .tick 2 0 0]

/-- A program that adds two and three. -/
theorem arithmetic_defined_iff_sum :
    let m := afterTwo [1, 0, 2, 0, 0, 0, 1, 1, 3, 0, 0, 0, 3, 2, 0, 1]
    (m.step ⟨[]⟩ 0).vm =
      { m.vm with pc := m.vm.pc + 4, registers := m.vm.registers.setIfInBounds 2 5 } := by
  intro m
  have hreach : Reachable ⟨[]⟩ m := ⟨(), _, rfl⟩
  have hinstruction : IsArithmetic m.vm := by decide +kernel
  have hoperation : m.vm.operation = some ⟨3, 2, 2, 3⟩ := by decide +kernel
  clear_value m
  obtain ⟨hnone, -⟩ | ⟨o, ho, -, hdefined⟩ := arithmetic_defined_iff nofun hreach 0 hinstruction
  · rw [hnone] at hoperation
    cases hoperation
  rw [hoperation] at ho
  obtain rfl := Option.some.inj ho
  exact hdefined 5 (by decide)

/-- The greatest number is increased by one, and the least one is divided by minus one.  Neither has
a meaning in C++. -/
theorem arithmetic_undefined :
    let add := afterTwo [1, 0, 0xff, 0xff, 0xff, 0x7f, 1, 1, 1, 0, 0, 0, 3, 2, 0, 1]
    let divide := afterTwo [1, 0, 0, 0, 0, 0x80, 1, 1, 0xff, 0xff, 0xff, 0xff, 6, 2, 0, 1]
    (add.vm.state = .running ∧ add.vm.operation = some ⟨3, 2, 2 ^ 31 - 1, 1⟩ ∧
        Operation.evaluate ⟨3, 2, 2 ^ 31 - 1, 1⟩ = none) ∧
      divide.vm.state = .running ∧ divide.vm.operation = some ⟨6, 2, -2 ^ 31, -1⟩ ∧
        Operation.evaluate ⟨6, 2, -2 ^ 31, -1⟩ = none := by
  refine ⟨⟨?_, ?_, ?_⟩, ?_, ?_, ?_⟩ <;> decide +kernel

end Vm

end Noobia
