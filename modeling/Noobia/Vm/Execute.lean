import Noobia.Vm.Machine

/-!
# The interpreter

`executeOne` is the interpreter's one big function.  It is cut here into one procedure for each
group of opcodes, in the order of the source, with the same checks in the same order: what an
instruction has already done when a later check fails is part of the behaviour, since the fault
leaves the VM as it is at that moment.

`NoobVm::tick` wakes a waiting VM if its time has come and then runs instructions while the VM is
running and the budget lasts.  It reads the clock at most twice, once to decide about waking and
once for a wait instruction, which ends the loop; the two readings are its arguments.
-/

namespace Noobia

variable {W : Type} (natives : VmNatives W)

namespace VmProc

open Proc

/-- `01 dst imm32`. -/
def moveImmediate : VmProc W Unit := do
  need 5
  let d ← read8
  let v ← read32
  validRegister d
  setRegister d v

/-- `02 dst src`. -/
def moveRegister : VmProc W Unit := do
  need 2
  let d ← read8
  let s ← read8
  validRegister d
  validRegister s
  setRegister d (← getRegister s)

/-- The result of opcodes `03` to `05` and of `06` with a nonzero divisor.  The exact result is
brought back into an `int32_t` by wrapping. -/
def arithmeticResult (opcode : Nat) (a b : Int) : Int :=
  Int.bmod
    (if opcode = 0x03 then a + b else if opcode = 0x04 then a - b
      else if opcode = 0x05 then a * b else a.tdiv b) (2 ^ 32)

/-- `03` to `06 dst a b`. -/
def arithmetic (opcode : Nat) : VmProc W Unit := do
  need 3
  let d ← read8
  let a ← read8
  let b ← read8
  validRegister d
  validRegister a
  validRegister b
  let x ← getRegister a
  let y ← getRegister b
  if opcode = 0x06 ∧ y = 0 then fault "division by zero"
  else setRegister d (arithmeticResult opcode x y)

/-- The end of a jump: `pc_ = target` if that is inside the program. -/
def jumpTo (target : Nat) : VmProc W Unit := do
  if ← read fun m ↦ decide (m.vm.programLength ≤ target) then fault "jump outside program"
  else setPc target

/-- `10 addr16`. -/
def jump : VmProc W Unit := do
  need 2
  let target ← read16
  jumpTo target

/-- Whether opcode `11` or `12` jumps on a register holding `x`. -/
def takes (opcode : Nat) (x : Int) : Bool := if opcode = 0x11 then x = 0 else x ≠ 0

/-- `11 reg addr16` and `12 reg addr16`. -/
def branch (opcode : Nat) : VmProc W Unit := do
  need 3
  let r ← read8
  let target ← read16
  validRegister r
  let x ← getRegister r
  if takes opcode x then jumpTo target else pure ()

/-- `13 addr16`. -/
def callSubroutine : VmProc W Unit := do
  need 2
  let target ← read16
  if ← read fun m ↦
      decide (m.vm.programLength ≤ target ∨ NoobVm.callDepth ≤ m.vm.stackDepth) then
    fault "invalid call"
  else
    let depth ← read fun m ↦ m.vm.stackDepth
    change (Machine.touch (.returnStack depth))
    change (Machine.withVm fun vm ↦
      { vm with
        returnStack := vm.returnStack.setIfInBounds depth vm.pc
        stackDepth := depth + 1
        pc := target })

/-- `14`. -/
def ret : VmProc W Unit := do
  let depth ← read fun m ↦ m.vm.stackDepth
  if depth = 0 then fault "return stack empty"
  else
    change (Machine.touch (.returnStack (depth - 1)))
    change (Machine.withVm fun vm ↦
      { vm with pc := vm.returnStack[depth - 1]?.getD 0, stackDepth := depth - 1 })

/-- The values of the `count` registers a syscall names. -/
def readArguments : Nat → VmProc W (List Int)
  | 0 => pure []
  | count + 1 => do
    let r ← read8
    validRegister r
    let x ← getRegister r
    return x :: (← readArguments count)

/-- The next `length` bytes of the program, as text. -/
def readText : Nat → VmProc W Bytes
  | 0 => pure []
  | length + 1 => do
    let c ← read8
    return UInt8.ofNat c :: (← readText length)

/-- The inline literal of opcode `22`. -/
def readLiteral : VmProc W Bytes := do
  need 1
  let length ← read8
  need length
  readText length

/-- `natives_.find(id)`, refused for opcode `20` if the function takes no numbers. -/
def resolve (opcode id : Nat) : Option (NativeEntry (Script W NoobVm VmCall)) :=
  (natives.find id).filter fun entry ↦ !(opcode = 0x20 && !entry.implementation.acceptsNumbers)

/-- What is left of a syscall once its operands are read. -/
def dispatch (opcode d id : Nat) (arguments : List Int) (ascii : Bytes) : VmProc W Unit :=
  match resolve natives opcode id with
  | none => fault "unknown numeric syscall"
  | some entry => do
    let result ← native (NativeRegistry.callMixed entry arguments ascii)
    if result.ok then setRegister d result.value
    else fault ("syscall " ++ toString id ++ ": " ++ result.detail)

/-- `20 dst func16 argc regs...` and `22 dst func16 argc regs... textlen8 ASCII...`. -/
def syscall (opcode : Nat) : VmProc W Unit := do
  need 4
  let d ← read8
  let id ← read16
  let count ← read8
  validRegister d
  if NoobVm.registerCount < count then fault "too many syscall arguments"
  else
    need count
    let arguments ← readArguments count
    let ascii ← if opcode = 0x22 then readLiteral else pure []
    dispatch natives opcode d id arguments ascii

/-- `21 milliseconds16`, where `millis()` reads `now`. -/
def wait (now : Nat) : VmProc W Unit := do
  need 2
  let delay ← read16
  change (Machine.withVm fun vm ↦ { vm with wakeAt := (now + delay) % 2 ^ 32 })
  setState .waiting

/-- `30 dst address8`. -/
def loadByte : VmProc W Unit := do
  need 2
  let d ← read8
  let address ← read8
  validRegister d
  change (Machine.touch (.memory address))
  setRegister d (← read fun m ↦ ((m.vm.memory[address]?.getD 0).toNat : Int))

/-- `31 address8 src`. -/
def storeByte : VmProc W Unit := do
  need 2
  let address ← read8
  let s ← read8
  validRegister s
  let x ← getRegister s
  change (Machine.touch (.memory address))
  change (Machine.withVm fun vm ↦
    { vm with memory := vm.memory.setIfInBounds address (UInt8.ofNat (x % 256).toNat) })

/-- The switch of `executeOne`. -/
def execute (now opcode : Nat) : VmProc W Unit :=
  if opcode = 0x00 then setState .halted
  else if opcode = 0x01 then moveImmediate
  else if opcode = 0x02 then moveRegister
  else if 0x03 ≤ opcode ∧ opcode ≤ 0x06 then arithmetic opcode
  else if opcode = 0x10 then jump
  else if opcode = 0x11 ∨ opcode = 0x12 then branch opcode
  else if opcode = 0x13 then callSubroutine
  else if opcode = 0x14 then ret
  else if opcode = 0x20 ∨ opcode = 0x22 then syscall natives opcode
  else if opcode = 0x21 then wait now
  else if opcode = 0x30 then loadByte
  else if opcode = 0x31 then storeByte
  else fault ("unknown opcode " ++ toString opcode)

/-- `executeOne`, with `now` what `millis()` returns if it is asked. -/
def executeOne (now : Nat) : VmProc W Unit := do
  need 1
  let opcode ← read8
  execute natives now opcode

end VmProc

namespace Machine

/-- One instruction. -/
def step (now : Nat) (m : Machine W) : Machine W :=
  (VmProc.executeOne natives now).final m

/-- `while (state_ == RUNNING && instructionBudget--) executeOne();` -/
def loop (natives : VmNatives W) (now : Nat) : Nat → Machine W → Machine W
  | 0, m => m
  | budget + 1, m =>
    if m.vm.state = .running then loop natives now budget (m.step natives now) else m

/-- The first half of `tick`: a waiting VM whose time has come runs again. -/
def wake (now : Nat) (m : Machine W) : Machine W :=
  if m.vm.state = .waiting ∧ Clock.before now m.vm.wakeAt = false then
    m.withVm fun vm ↦ { vm with state := .running }
  else m

/-- `tick(instructionBudget)`.  A VM left waiting by `wake` does not enter the loop. -/
def tick (budget now waitNow : Nat) (m : Machine W) : Machine W :=
  (m.wake now).loop natives waitNow budget

end Machine

/-- What happens to a VM from outside. -/
inductive VmOp
  /-- A command calls it. -/
  | call (c : VmCall)
  /-- The runtime ticks it; the last two numbers are the clock readings it takes. -/
  | tick (budget now waitNow : Nat)

/-- One such event. -/
def VmOp.perform : VmOp → Machine W → Machine W
  | .call c, m => m.withVm c.perform
  | .tick budget now waitNow, m => m.tick natives budget now waitNow

/-- A whole history. -/
def Machine.runOps (ops : List VmOp) (m : Machine W) : Machine W :=
  ops.foldl (fun m op ↦ op.perform natives m) m

end Noobia
