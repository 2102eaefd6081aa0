import Noobia.Lib.Clock
import Noobia.Lib.Proc
import Noobia.Lib.Script
import Noobia.Native.Registry

/-!
# The virtual machine

`NoobVm` is the interpreter a Noob runs uploaded bytecode on: a kilobyte of program, 256 bytes of
memory, eight signed registers and an eight-entry return stack.  The fields are those of the class,
arrays keeping their declared sizes; a machine integer is a `Nat` or an `Int` that every update
reduces the way the C++ type would.

The interpreter itself works on a `Machine`, which is the VM together with two things the class
does not hold: the world its native functions live in, and the list of array accesses made so far.
The list is there to be reasoned about.  In the model an access past the end of an array reads a
zero or writes nothing, so that an `Access` record is the only trace it leaves; showing that no such
record is ever made is showing that the C++ program never steps outside its arrays.

A native function may call the VM back, so natives are `Script`s over `NoobVm` with the interface
`VmCall`.
-/

namespace Noobia

/-- `VmState`. -/
inductive VmState
  | empty | ready | running | waiting | halted | stopped | fault
  deriving DecidableEq, Repr

/-- `NoobVm`, without the reference to the registry. -/
structure NoobVm where
  /-- `program_[PROGRAM_BYTES]`. -/
  program : Vector UInt8 1024 := .replicate 1024 0
  /-- `memory_[MEMORY_BYTES]`. -/
  memory : Vector UInt8 256 := .replicate 256 0
  /-- `registers_[REGISTER_COUNT]`, each an `int32_t`. -/
  registers : Vector Int 8 := .replicate 8 0
  /-- `returnStack_[CALL_DEPTH]`, each a `uint16_t`. -/
  returnStack : Vector Nat 8 := .replicate 8 0
  programLength : Nat := 0
  /-- `pc_`, a `uint16_t`. -/
  pc : Nat := 0
  /-- `stackDepth_`, a `uint8_t`. -/
  stackDepth : Nat := 0
  /-- `wakeAt_`, a `uint32_t`. -/
  wakeAt : Nat := 0
  state : VmState := .empty
  faultMessage : String := ""

namespace NoobVm

def programBytes : Nat := 1024

def registerCount : Nat := 8

def callDepth : Nat := 8

/-- The program the VM holds: the first `programLength_` bytes of its buffer. -/
def loaded (vm : NoobVm) : Bytes := vm.program.toList.take vm.programLength

/-- The VM is in the middle of a program. -/
def busy (vm : NoobVm) : Bool := vm.state = .running || vm.state = .waiting

/-- The buffer after `memcpy(program_, program, length)`: what lies beyond the copy stays. -/
def copyProgram (buffer : Vector UInt8 1024) (program : Bytes) : Vector UInt8 1024 :=
  .ofFn fun i ↦ program[i.val]?.getD buffer[i]

open List

def load (vm : NoobVm) (program : Bytes) : Except String NoobVm :=
  if program.length = 0 ∨ programBytes < program.length then
    .error "program size must be 1..1024 bytes"
  else if vm.busy then .error "stop VM before replacing program"
  else .ok
    { vm with
      program := copyProgram vm.program program
      programLength := program.length
      pc := 0
      stackDepth := 0
      registers := .replicate 8 0
      memory := .replicate 256 0
      faultMessage := ""
      state := .ready }

/-- What a successful `load` makes of the VM. -/
theorem load_spec {vm vm' : NoobVm} {p : Bytes} (h : vm.load p = .ok vm') :
    vm'.loaded = p ∧ 0 < p.length ∧ p.length ≤ 1024 ∧ vm'.programLength = p.length ∧
      vm'.stackDepth = 0 ∧ vm'.pc = 0 ∧ vm'.state = .ready := by
  rw [load] at h
  split at h
  · cases h
  rename_i hsize
  rw [programBytes] at hsize
  split at h
  · cases h
  obtain rfl := Except.ok.inj h
  refine ⟨?_, by omega, by omega, rfl, rfl, rfl, rfl⟩
  refine ext_getElem ?_ fun i h1 h2 ↦ ?_
  · simp only [loaded, length_take, Vector.length_toList]
    omega
  · simp only [loaded, copyProgram, getElem_take, Vector.getElem_toList,
      Vector.getElem_ofFn, getElem?_eq_getElem h2, Option.getD_some]

/-- A VM that is not in the middle of a program takes any that fits. -/
theorem load_ok (vm : NoobVm) (hbusy : vm.busy = false) {p : Bytes} (hpos : 0 < p.length)
    (hle : p.length ≤ 1024) : ∃ vm', vm.load p = .ok vm' := by
  rw [load, if_neg (by rw [programBytes]; omega), hbusy]
  exact ⟨_, rfl⟩

def run (vm : NoobVm) : Except String NoobVm :=
  if vm.programLength = 0 then .error "no program loaded"
  else if vm.busy then .error "VM already running"
  else .ok { vm with pc := 0, stackDepth := 0, state := .running }

/-- A VM with a program in it that is ready can be run. -/
theorem run_of_ready {vm : NoobVm} (hstate : vm.state = .ready) (hlength : vm.programLength ≠ 0) :
    vm.run = .ok { vm with pc := 0, stackDepth := 0, state := .running } := by
  rw [run, if_neg hlength, busy, hstate]
  rfl

def stop (vm : NoobVm) : NoobVm := if vm.busy then { vm with state := .stopped } else vm

def reset (vm : NoobVm) : NoobVm :=
  { vm with
    programLength := 0
    pc := 0
    stackDepth := 0
    program := .replicate 1024 0
    memory := .replicate 256 0
    registers := .replicate 8 0
    faultMessage := ""
    state := .empty }

end NoobVm

/-- The calls a native function can make on the VM that is calling it. -/
inductive VmCall
  | load (program : Bytes)
  | run
  | stop
  | reset

/-- What such a call does; a refused one does nothing. -/
def VmCall.perform : VmCall → NoobVm → NoobVm
  | .load program, vm => (vm.load program).toOption.getD vm
  | .run, vm => vm.run.toOption.getD vm
  | .stop, vm => vm.stop
  | .reset, vm => vm.reset

/-- What has become of a VM by a call. -/
inductive VmCall.Performed (vm : NoobVm) : VmCall → NoobVm → Prop
  | refused (c : VmCall) : Performed vm c vm
  | load (program : Bytes) (h : program.length ≤ 1024) :
    Performed vm (.load program)
      { vm with
        program := NoobVm.copyProgram vm.program program
        programLength := program.length
        pc := 0
        stackDepth := 0
        registers := .replicate 8 0
        memory := .replicate 256 0
        faultMessage := ""
        state := .ready }
  | run (hlength : vm.programLength ≠ 0) :
    Performed vm .run { vm with pc := 0, stackDepth := 0, state := .running }
  | stop (hbusy : vm.busy = true) : Performed vm .stop { vm with state := .stopped }
  | reset : Performed vm .reset vm.reset

theorem VmCall.performed (c : VmCall) (vm : NoobVm) : Performed vm c (c.perform vm) := by
  cases c with
  | load program =>
    rw [perform, NoobVm.load]
    split
    · exact .refused _
    rename_i hsize
    rw [NoobVm.programBytes] at hsize
    split
    · exact .refused _
    · exact .load program (by omega)
  | run =>
    rw [perform, NoobVm.run]
    split
    · exact .refused _
    rename_i hlength
    split
    · exact .refused _
    · exact .run hlength
  | stop =>
    rw [perform, NoobVm.stop]
    split
    · rename_i hbusy
      exact .stop hbusy
    · exact .refused _
  | reset => exact .reset

/-- One access to one of the VM's arrays. -/
inductive Access
  /-- A program byte is read, while the program is `length` bytes long. -/
  | program (index length : Nat)
  /-- A memory byte is read or written. -/
  | memory (index : Nat)
  /-- A register is read or written. -/
  | register (index : Nat)
  /-- A return address is read or written. -/
  | returnStack (index : Nat)

/-- The access is where it should be. -/
def Access.InBounds : Access → Prop
  | .program index length => index < length
  | .memory index => index < 256
  | .register index => index < 8
  | .returnStack index => index < 8

/-- The native functions of a VM. -/
abbrev VmNatives (W : Type) := NativeRegistry (Script W NoobVm VmCall)

/-- The VM, the world of its natives, and the accesses made so far. -/
structure Machine (W : Type) where
  vm : NoobVm
  /-- The world of its native functions. -/
  world : W
  /-- The accesses made so far, latest first. -/
  log : List Access

/-- A freshly constructed VM. -/
def Machine.init {W : Type} (world : W) : Machine W := ⟨{}, world, []⟩

variable {W : Type}

/-! ## What the interpreter is made of -/

namespace Machine

/-- Replace the VM. -/
def withVm (f : NoobVm → NoobVm) (m : Machine W) : Machine W := { m with vm := f m.vm }

/-- Record an access. -/
def touch (a : Access) (m : Machine W) : Machine W := { m with log := a :: m.log }

end Machine

/-- A piece of `executeOne`; giving up is returning from it. -/
abbrev VmProc (W : Type) := Proc (Machine W)

namespace VmProc

open Proc

/-- `fault(message)` followed by `return`. -/
def fault {α : Type} (message : String) : VmProc W α := do
  change (Machine.withVm fun vm ↦ { vm with faultMessage := message, state := .fault })
  exit

/-- `need(bytes)`, returning if it fails. -/
def need (bytes : Nat) : VmProc W Unit := do
  if ← read fun m ↦ decide (m.vm.pc + bytes ≤ m.vm.programLength) then pure ()
  else fault "truncated instruction"

def read8 : VmProc W Nat := do
  let pc ← read fun m ↦ m.vm.pc
  let value ← read fun m ↦ (m.vm.program[pc]?.getD 0).toNat
  change fun m ↦ m.touch (.program pc m.vm.programLength)
  change (Machine.withVm fun vm ↦ { vm with pc := (pc + 1) % 2 ^ 16 })
  return value

/-- `read16()`, which indexes both bytes before it moves `pc_`. -/
def read16 : VmProc W Nat := do
  let pc ← read fun m ↦ m.vm.pc
  let low ← read fun m ↦ (m.vm.program[pc]?.getD 0).toNat
  let high ← read fun m ↦ (m.vm.program[pc + 1]?.getD 0).toNat
  change fun m ↦ m.touch (.program pc m.vm.programLength)
  change fun m ↦ m.touch (.program (pc + 1) m.vm.programLength)
  change (Machine.withVm fun vm ↦ { vm with pc := (pc + 2) % 2 ^ 16 })
  return low + 256 * high

/-- `read32()`: four bytes, lowest first, as an `int32_t`. -/
def read32 : VmProc W Int := do
  let b0 ← read8
  let b1 ← read8
  let b2 ← read8
  let b3 ← read8
  return Int.bmod (b0 + 2 ^ 8 * b1 + 2 ^ 16 * b2 + 2 ^ 24 * b3 : Nat) (2 ^ 32)

/-- `validRegister(index)`, returning if it fails. -/
def validRegister (index : Nat) : VmProc W Unit :=
  if index < NoobVm.registerCount then pure () else fault "invalid register"

/-- The value of `registers_[index]`. -/
def getRegister (index : Nat) : VmProc W Int := do
  change (Machine.touch (.register index))
  read fun m ↦ m.vm.registers[index]?.getD 0

/-- `registers_[index] = value`. -/
def setRegister (index : Nat) (value : Int) : VmProc W Unit := do
  change (Machine.touch (.register index))
  change (Machine.withVm fun vm ↦ { vm with registers := vm.registers.setIfInBounds index value })

/-- `state_ = state`. -/
def setState (state : VmState) : VmProc W Unit :=
  change (Machine.withVm fun vm ↦ { vm with state := state })

/-- `pc_ = target`. -/
def setPc (target : Nat) : VmProc W Unit :=
  change (Machine.withVm fun vm ↦ { vm with pc := target })

/-- Hand over to a native function and let the calls it makes on the VM happen. -/
def native {α : Type} (script : Script W NoobVm VmCall α) : VmProc W α := fun m ↦
  let r := script.exec (fun c p ↦ (p.1, c.perform p.2)) (m.world, m.vm)
  (some r.1, { m with world := r.2.1, vm := r.2.2 })

end VmProc

end Noobia
