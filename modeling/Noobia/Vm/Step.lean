import Noobia.Vm.Decode

/-!
# What one instruction can do

`VmInv A T vm` is the invariant of a VM whose program counter and saved return addresses keep to the
set of positions `T`.  `executeOne_wp` is the one place where the interpreter is taken apart: from a
running VM that satisfies the invariant, an instruction either completes and leaves the invariant in
place, or faults for one of the reasons listed in `Cause`, and every array access it makes is in
bounds.

Between the first byte of an instruction and its end the program counter is at no position that
means anything.  `Mid p b k m` is what is true there: `k` bytes of the instruction at `b` have been
read, and all the rest is as it was.
-/

namespace Noobia.Vm

open List

variable {W : Type} {A : Bytes → Prop} {T : Bytes → Nat → Prop}

/-- The part of the invariant that holds at every moment, inside an instruction too. -/
structure Frame (A : Bytes → Prop) (T : Bytes → Nat → Prop) (vm : NoobVm) : Prop where
  length_le : vm.programLength ≤ 1024
  pc_le : vm.pc ≤ vm.programLength
  depth_le : vm.stackDepth ≤ 8
  admitted : A vm.loaded
  /-- Every saved return address is a position of `T`. -/
  stack : ∀ i, i < vm.stackDepth → T vm.loaded (vm.returnStack[i]?.getD 0)

/-- The invariant between instructions. -/
structure VmInv (A : Bytes → Prop) (T : Bytes → Nat → Prop) (vm : NoobVm) : Prop
    extends Frame A T vm where
  /-- While the VM is running or waiting, so is the program counter. -/
  at_target : vm.busy = true → T vm.loaded vm.pc

/-- A fault message that has nothing to do with how the program is laid out. -/
def Blameless (message : String) : Prop :=
  message ≠ "truncated instruction" ∧ message ≠ "jump outside program" ∧
    ∀ op : Nat, message ≠ "unknown opcode " ++ toString op

/-- Why the instruction at `b` may fault, leaving the program counter at `pc`. -/
inductive Cause (p : Bytes) (b pc : Nat) : String → Prop
  /-- It is not all there. -/
  | truncated (h : width p b = none) (hpc : b ≤ pc) : Cause p b pc "truncated instruction"
  /-- It is no instruction. -/
  | unknown (op : Nat) (h : width p b = none) (hlt : b < p.length) :
      Cause p b pc ("unknown opcode " ++ toString op)
  /-- It jumps past the end. -/
  | outside (t : Nat) (ht : target p b = some t) (h : p.length ≤ t) (w : Nat)
      (hw : width p b = some w) : Cause p b pc "jump outside program"
  /-- Something else is wrong with it. -/
  | other {message : String} (h : Blameless message) : Cause p b pc message

/-- `k` bytes of the instruction at `b` have been read. -/
structure Mid (A : Bytes → Prop) (T : Bytes → Nat → Prop) (p : Bytes) (b k : Nat) (m : Machine W) :
    Prop where
  frame : Frame A T m.vm
  log : ∀ a ∈ m.log, a.InBounds
  loaded : m.vm.loaded = p
  running : m.vm.state = .running
  pc : m.vm.pc = b + k
  start : T p b

/-- The instruction at `b` has faulted. -/
structure Faulted (A : Bytes → Prop) (T : Bytes → Nat → Prop) (p : Bytes) (b : Nat)
    (m : Machine W) : Prop where
  frame : Frame A T m.vm
  log : ∀ a ∈ m.log, a.InBounds
  fault : m.vm.state = .fault
  cause : Cause p b m.vm.pc m.vm.faultMessage

/-- The instruction has run to its end. -/
structure Done (A : Bytes → Prop) (T : Bytes → Nat → Prop) (m : Machine W) : Prop where
  inv : VmInv A T m.vm
  log : ∀ a ∈ m.log, a.InBounds
  noFault : m.vm.state ≠ .fault

/-! ## Bookkeeping -/

variable {vm : NoobVm}

theorem loaded_length (h : vm.programLength ≤ 1024) : vm.loaded.length = vm.programLength := by
  rw [NoobVm.loaded, length_take, Vector.length_toList, Nat.min_eq_left h]

variable {i n : Nat} {message : String} {Q : Unit → Machine W → Prop}

theorem byteAt_loaded (h : i < vm.programLength) :
    byteAt vm.loaded i = (vm.program[i]?.getD 0).toNat := by
  rw [byteAt, NoobVm.loaded, getElem?_take, if_pos h, Vector.getElem?_toList]

variable {p : Bytes} {b k : Nat} {m : Machine W}

/-- A message that is neither of the two literals and does not begin like the third kind. -/
theorem blameless_of_ne (h1 : message ≠ "truncated instruction")
    (h2 : message ≠ "jump outside program") (h3 : ¬ "unknown opcode ".toList <+: message.toList) :
    Blameless message := by
  refine ⟨h1, h2, ?_⟩
  rintro op rfl
  exact h3 ⟨(toString op).toList, (String.toList_append ..).symm⟩

open Proc VmProc

section

variable (h : Mid A T p b k m)

include h

theorem Mid.length : m.vm.programLength = p.length := by
  rw [← h.loaded, loaded_length h.frame.length_le]

/-- The register, memory and wake-up fields do not matter to `Mid`, nor does an access in
bounds. -/
theorem Mid.congr {m' : Machine W} (hprogram : m'.vm.program = m.vm.program)
    (hlength : m'.vm.programLength = m.vm.programLength) (hpc : m'.vm.pc = m.vm.pc)
    (hdepth : m'.vm.stackDepth = m.vm.stackDepth)
    (hstack : m'.vm.returnStack = m.vm.returnStack) (hstate : m'.vm.state = m.vm.state)
    (hlog : ∀ a ∈ m'.log, a.InBounds) : Mid A T p b k m' := by
  have hloaded : m'.vm.loaded = m.vm.loaded := by rw [NoobVm.loaded, hprogram, hlength]; rfl
  exact {
    frame := {
      length_le := hlength ▸ h.frame.length_le
      pc_le := by rw [hpc, hlength]; exact h.frame.pc_le
      depth_le := hdepth ▸ h.frame.depth_le
      admitted := hloaded ▸ h.frame.admitted
      stack := by rw [hdepth, hloaded, hstack]; exact h.frame.stack }
    log := hlog
    loaded := hloaded.trans h.loaded
    running := hstate.trans h.running
    pc := hpc.trans h.pc
    start := h.start }

theorem Mid.touch {a : Access} (ha : a.InBounds) :
    Mid A T p b k (m.touch a) :=
  h.congr rfl rfl rfl rfl rfl rfl fun x hx ↦ by
    rcases mem_cons.mp hx with rfl | hx
    · exact ha
    · exact h.log x hx

theorem Mid.advance (hn : b + k + n ≤ p.length) :
    Mid A T p b (k + n) (m.withVm fun vm ↦ { vm with pc := (b + k + n) % 2 ^ 16 }) := by
  have hlen := h.length
  have hle := h.frame.length_le
  have hmod : (b + k + n) % 2 ^ 16 = b + (k + n) := by omega
  have hpc : (b + k + n) % 2 ^ 16 ≤ m.vm.programLength := by omega
  exact { h with frame := { h.frame with pc_le := hpc }, pc := hmod }

/-- An instruction read to its end leaves the program counter at the next position. -/
theorem Mid.at_end (hd : Discipline A T) (hw : width p b = some k) :
    T m.vm.loaded m.vm.pc := by
  rw [h.loaded, h.pc]
  exact hd.next h.start hw

theorem Mid.noFault : m.vm.state ≠ .fault := by
  rw [h.running]
  nofun

theorem Mid.done (hd : Discipline A T) (hw : width p b = some k) :
    Done A T m where
  inv := ⟨h.frame, fun _ ↦ h.at_end hd hw⟩
  log := h.log
  noFault := h.noFault

/-! ## The pieces of an instruction

Each rule says what a piece of `executeOne` needs in order to lead to `Q`, the fault it may end in
being accounted for already. -/

theorem fault_wp {α : Type} {Q : α → Machine W → Prop}
    (hc : Cause p b (b + k) message) : Wp (fault message) Q (Faulted A T p b) m :=
  wp_bind <| wp_change <| wp_exit {
    frame := { h.frame with }
    log := h.log
    fault := rfl
    cause := by
      show Cause p b m.vm.pc message
      rw [h.pc]
      exact hc }

theorem need_wp (hok : b + k + n ≤ p.length → Q () m)
    (hno : p.length < b + k + n → width p b = none) : Wp (need n) Q (Faulted A T p b) m := by
  refine wp_bind (wp_read ?_)
  rw [h.pc, h.length]
  by_cases hn : b + k + n ≤ p.length
  · rw [decide_eq_true hn]
    exact wp_pure (hok hn)
  · rw [decide_eq_false hn]
    exact fault_wp h (.truncated (hno (by omega)) (by omega))

theorem read8_wp {Q : Nat → Machine W → Prop} (hlt : b + k < p.length)
    (hQ : ∀ m', Mid A T p b (k + 1) m' → Q (byteAt p (b + k)) m') :
    Wp read8 Q (Faulted A T p b) m := by
  have hlen := h.length
  have hbyte : byteAt p (b + k) = (m.vm.program[b + k]?.getD 0).toNat := by
    rw [← h.loaded]
    exact byteAt_loaded (by omega)
  refine wp_bind (wp_read ?_)
  rw [h.pc]
  refine wp_bind (wp_read ?_)
  refine wp_bind (wp_change ?_)
  refine wp_bind (wp_change ?_)
  rw [← hbyte]
  exact wp_pure (hQ _ ((h.touch (show b + k < _ by omega)).advance (by omega)))

theorem read16_wp {Q : Nat → Machine W → Prop} (hlt : b + k + 1 < p.length)
    (hQ : ∀ m', Mid A T p b (k + 2) m' → Q (wordAt p (b + k)) m') :
    Wp read16 Q (Faulted A T p b) m := by
  have hlen := h.length
  have hbyte : ∀ i, i < p.length → byteAt p i = (m.vm.program[i]?.getD 0).toNat := by
    intro i hi
    rw [← h.loaded]
    exact byteAt_loaded (by omega)
  refine wp_bind (wp_read ?_)
  rw [h.pc]
  refine wp_bind (wp_read ?_)
  refine wp_bind (wp_read ?_)
  refine wp_bind (wp_change ?_)
  refine wp_bind (wp_change ?_)
  refine wp_bind (wp_change ?_)
  rw [← hbyte _ (by omega), ← hbyte _ (by omega)]
  refine wp_pure (hQ _ (Mid.advance ((h.touch ?_).touch ?_) (by omega)))
  · show b + k < m.vm.programLength
    omega
  · show b + k + 1 < m.vm.programLength
    omega

theorem read32_wp {Q : Int → Machine W → Prop} (hlt : b + k + 4 ≤ p.length)
    (hQ : ∀ v m', Mid A T p b (k + 4) m' → Q v m') : Wp read32 Q (Faulted A T p b) m := by
  refine wp_bind (read8_wp h (by omega) fun m1 h1 ↦ ?_)
  refine wp_bind (read8_wp h1 (by omega) fun m2 h2 ↦ ?_)
  refine wp_bind (read8_wp h2 (by omega) fun m3 h3 ↦ ?_)
  refine wp_bind (read8_wp h3 (by omega) fun m4 h4 ↦ ?_)
  exact wp_pure (hQ _ _ h4)

theorem validRegister_wp (hok : i < 8 → Q () m) :
    Wp (validRegister i) Q (Faulted A T p b) m := by
  rw [validRegister, NoobVm.registerCount]
  split
  · rename_i hi
    exact wp_pure (hok hi)
  · exact fault_wp h (.other (blameless_of_ne (by decide) (by decide) (by decide)))

theorem getRegister_wp {Q : Int → Machine W → Prop} (hi : i < 8)
    (hQ : ∀ x m', Mid A T p b k m' → Q x m') : Wp (getRegister i) Q (Faulted A T p b) m :=
  wp_bind <| wp_change <| wp_read <| hQ _ _ (h.touch hi)

theorem setRegister_wp {x : Int} (hi : i < 8)
    (hQ : ∀ m', Mid A T p b k m' → Q () m') : Wp (setRegister i x) Q (Faulted A T p b) m :=
  wp_bind <| wp_change <| wp_change <| hQ _ <|
    (h.touch (a := .register i) hi).congr rfl rfl rfl rfl rfl rfl
      (h.touch (a := .register i) hi).log

end

theorem readArguments_wp : ∀ (n k : Nat) {Q : List Int → Machine W → Prop} {m : Machine W},
    Mid A T p b k m → b + k + n ≤ p.length → (∀ xs m', Mid A T p b (k + n) m' → Q xs m') →
    Wp (readArguments n) Q (Faulted A T p b) m
  | 0, _, _, _, h, _, hQ => wp_pure (hQ _ _ h)
  | n + 1, k, _, _, h, hlen, hQ => by
    refine wp_bind (read8_wp h (by omega) fun m1 h1 ↦ ?_)
    refine wp_bind (validRegister_wp h1 fun hr ↦ ?_)
    refine wp_bind (getRegister_wp h1 hr fun x m2 h2 ↦ ?_)
    refine wp_bind (readArguments_wp n (k + 1) h2 (by omega) fun xs m3 h3 ↦ ?_)
    rw [Nat.add_assoc, Nat.add_comm 1] at h3
    exact wp_pure (hQ _ _ h3)

theorem readText_wp : ∀ (n k : Nat) {Q : Bytes → Machine W → Prop} {m : Machine W},
    Mid A T p b k m → b + k + n ≤ p.length → (∀ xs m', Mid A T p b (k + n) m' → Q xs m') →
    Wp (readText n) Q (Faulted A T p b) m
  | 0, _, _, _, h, _, hQ => wp_pure (hQ _ _ h)
  | n + 1, k, _, _, h, hlen, hQ => by
    refine wp_bind (read8_wp h (by omega) fun m1 h1 ↦ ?_)
    refine wp_bind (readText_wp n (k + 1) h1 (by omega) fun xs m2 h2 ↦ ?_)
    rw [Nat.add_assoc, Nat.add_comm 1] at h2
    exact wp_pure (hQ _ _ h2)

/-! ## The instructions that stay inside the VM -/

/-- The instruction at `b`, of which one byte has been read, is met by `q`. -/
def Meets (A : Bytes → Prop) (T : Bytes → Nat → Prop) (p : Bytes) (b : Nat) (q : VmProc W Unit) :
    Prop :=
  ∀ m, Mid A T p b 1 m → b < p.length → Wp q (fun _ ↦ Done A T) (Faulted A T p b) m

/-- How an instruction with `n` operand bytes begins. -/
theorem need_fixed {n : Nat} {q : Unit → VmProc W Unit} (hb : b < p.length)
    (hn : operandBytes (byteAt p b) = some n) (h : Mid A T p b 1 m)
    (hq : width p b = some (1 + n) → b + 1 + n ≤ p.length →
      Wp (q ()) (fun _ ↦ Done A T) (Faulted A T p b) m) :
    Wp (need n >>= q) (fun _ ↦ Done A T) (Faulted A T p b) m := by
  have hw := width_of_fixed hb rfl hn
  refine wp_bind (need_wp h (fun hle ↦ ?_) fun hlt ↦ ?_)
  · rw [if_pos hle] at hw
    exact hq hw hle
  · rw [hw, if_neg (by omega)]

variable {op : Nat}

section

variable (hd : Discipline A T)

include hd

theorem moveImmediate_meets (hop : byteAt p b = 0x01) :
    Meets A T p b (moveImmediate : VmProc W Unit) := by
  intro m h hb
  refine need_fixed hb (by rw [hop]; rfl) h fun hw hle ↦ ?_
  refine wp_bind (read8_wp h (by omega) fun m1 h1 ↦ ?_)
  refine wp_bind (read32_wp h1 (by omega) fun v m2 h2 ↦ ?_)
  refine wp_bind (validRegister_wp h2 fun hr ↦ ?_)
  exact setRegister_wp h2 hr fun m3 h3 ↦ h3.done hd hw

theorem moveRegister_meets (hop : byteAt p b = 0x02) :
    Meets A T p b (moveRegister : VmProc W Unit) := by
  intro m h hb
  refine need_fixed hb (by rw [hop]; rfl) h fun hw hle ↦ ?_
  refine wp_bind (read8_wp h (by omega) fun m1 h1 ↦ ?_)
  refine wp_bind (read8_wp h1 (by omega) fun m2 h2 ↦ ?_)
  refine wp_bind (validRegister_wp h2 fun hr ↦ ?_)
  refine wp_bind (validRegister_wp h2 fun hs ↦ ?_)
  refine wp_bind (getRegister_wp h2 hs fun x m3 h3 ↦ ?_)
  exact setRegister_wp h3 hr fun m4 h4 ↦ h4.done hd hw

theorem arithmetic_meets (hop : operandBytes (byteAt p b) = some 3) :
    Meets A T p b (arithmetic op : VmProc W Unit) := by
  intro m h hb
  refine need_fixed hb hop h fun hw hle ↦ ?_
  refine wp_bind (read8_wp h (by omega) fun m1 h1 ↦ ?_)
  refine wp_bind (read8_wp h1 (by omega) fun m2 h2 ↦ ?_)
  refine wp_bind (read8_wp h2 (by omega) fun m3 h3 ↦ ?_)
  refine wp_bind (validRegister_wp h3 fun hr ↦ ?_)
  refine wp_bind (validRegister_wp h3 fun hx ↦ ?_)
  refine wp_bind (validRegister_wp h3 fun hy ↦ ?_)
  refine wp_bind (getRegister_wp h3 hx fun x m4 h4 ↦ ?_)
  refine wp_bind (getRegister_wp h4 hy fun y m5 h5 ↦ ?_)
  split
  · exact fault_wp h5
      (.other (blameless_of_ne (by decide) (by decide) (by decide)))
  · exact setRegister_wp h5 hr fun m6 h6 ↦ h6.done hd hw

theorem jumpTo_wp {w t : Nat} (h : Mid A T p b w m) (hw : width p b = some w)
    (ht : target p b = some t) : Wp (jumpTo t) (fun _ ↦ Done A T) (Faulted A T p b) m := by
  refine wp_bind (wp_read ?_)
  rw [h.length]
  by_cases hlt : p.length ≤ t
  · rw [decide_eq_true hlt]
    exact fault_wp h (.outside t ht hlt w hw)
  rw [decide_eq_false hlt]
  have hlen := h.length
  refine wp_change {
    inv := { h.frame with
      pc_le := show t ≤ m.vm.programLength by omega
      at_target := fun _ ↦ ?_ }
    log := h.log
    noFault := h.noFault }
  show T m.vm.loaded t
  rw [h.loaded]
  exact hd.jump h.start hw ht (by omega)

theorem jump_meets (hop : byteAt p b = 0x10) : Meets A T p b (jump : VmProc W Unit) := by
  intro m h hb
  refine need_fixed hb (by rw [hop]; rfl) h fun hw hle ↦ ?_
  refine wp_bind (read16_wp h (by omega) fun m1 h1 ↦ ?_)
  exact jumpTo_wp hd h1 hw (by rw [target, if_pos (.inl hop)])

theorem branch_meets (hop : byteAt p b = 0x11 ∨ byteAt p b = 0x12) :
    Meets A T p b (branch op : VmProc W Unit) := by
  intro m h hb
  have hn : operandBytes (byteAt p b) = some 3 := by rcases hop with hop | hop <;> rw [hop] <;> rfl
  refine need_fixed hb hn h fun hw hle ↦ ?_
  refine wp_bind (read8_wp h (by omega) fun m1 h1 ↦ ?_)
  refine wp_bind (read16_wp h1 (by omega) fun m2 h2 ↦ ?_)
  refine wp_bind (validRegister_wp h2 fun hr ↦ ?_)
  refine wp_bind (getRegister_wp h2 hr fun x m3 h3 ↦ ?_)
  have htarget : target p b = some (wordAt p (b + (1 + 1))) := by
    rw [target, if_neg (by omega), if_pos hop]
  split
  · exact jumpTo_wp hd h3 hw htarget
  · exact wp_pure (h3.done hd hw)

theorem callSubroutine_meets (hop : byteAt p b = 0x13) :
    Meets A T p b (callSubroutine : VmProc W Unit) := by
  intro m h hb
  refine need_fixed hb (by rw [hop]; rfl) h fun hw hle ↦ ?_
  refine wp_bind (read16_wp h (by omega) fun m1 h1 ↦ ?_)
  refine wp_bind (wp_read ?_)
  rw [h1.length, NoobVm.callDepth]
  by_cases hbad : p.length ≤ wordAt p (b + 1) ∨ 8 ≤ m1.vm.stackDepth
  · rw [decide_eq_true hbad]
    exact fault_wp h1
      (.other (blameless_of_ne (by decide) (by decide) (by decide)))
  rw [decide_eq_false hbad]
  refine wp_bind (wp_read (wp_bind (wp_change (wp_change ?_))))
  have hlen := h1.length
  have hdepth : m1.vm.stackDepth < 8 := by omega
  have htouch := h1.touch (a := .returnStack m1.vm.stackDepth) hdepth
  have htarget : target p b = some (wordAt p (b + 1)) := by rw [target, if_pos (.inr hop)]
  have hnext : T m1.vm.loaded (wordAt p (b + 1)) := by
    rw [h1.loaded]
    exact hd.jump h1.start hw htarget (by omega)
  refine {
    inv := { h1.frame with
      pc_le := ?_
      depth_le := hdepth
      stack := fun i hi ↦ ?_
      at_target := fun _ ↦ hnext }
    log := htouch.log
    noFault := h1.noFault }
  · show wordAt p (b + 1) ≤ m1.vm.programLength
    omega
  -- the new top is the address after the call, the others were there before
  show T m1.vm.loaded ((m1.vm.returnStack.setIfInBounds m1.vm.stackDepth m1.vm.pc)[i]?.getD 0)
  rw [Vector.getElem?_setIfInBounds]
  split
  · exact h1.at_end hd hw
  · have hi' : i < m1.vm.stackDepth + 1 := hi
    exact h1.frame.stack i (by omega)

theorem ret_meets : Meets A T p b (ret : VmProc W Unit) := by
  intro m h hb
  refine wp_bind (wp_read ?_)
  split
  · exact fault_wp h
      (.other (blameless_of_ne (by decide) (by decide) (by decide)))
  have hdepth := h.frame.depth_le
  have hback := h.frame.stack (m.vm.stackDepth - 1) (by omega)
  have htouch := h.touch (a := .returnStack (m.vm.stackDepth - 1)) (show _ < 8 by omega)
  refine wp_bind (wp_change (wp_change {
    inv := { h.frame with
      pc_le := ?_
      depth_le := show m.vm.stackDepth - 1 ≤ 8 by omega
      stack := fun i hi ↦ h.frame.stack i (Nat.lt_of_lt_of_le hi (Nat.sub_le _ _))
      at_target := fun _ ↦ hback }
    log := htouch.log
    noFault := h.noFault }))
  have hle := hd.le hback
  rw [loaded_length h.frame.length_le] at hle
  exact hle

theorem wait_meets {now : Nat} (hop : byteAt p b = 0x21) :
    Meets A T p b (wait now : VmProc W Unit) := by
  intro m h hb
  refine need_fixed hb (by rw [hop]; rfl) h fun hw hle ↦ ?_
  refine wp_bind (read16_wp h (by omega) fun m1 h1 ↦ ?_)
  exact wp_bind (wp_change (wp_change {
    inv := { h1.frame with
      at_target := fun _ ↦ show T m1.vm.loaded m1.vm.pc from h1.at_end hd hw }
    log := h1.log
    noFault := nofun }))

theorem loadByte_meets (hop : byteAt p b = 0x30) : Meets A T p b (loadByte : VmProc W Unit) := by
  intro m h hb
  refine need_fixed hb (by rw [hop]; rfl) h fun hw hle ↦ ?_
  refine wp_bind (read8_wp h (by omega) fun m1 h1 ↦ ?_)
  refine wp_bind (read8_wp h1 (by omega) fun m2 h2 ↦ ?_)
  refine wp_bind (validRegister_wp h2 fun hr ↦ ?_)
  refine wp_bind (wp_change (wp_bind (wp_read ?_)))
  exact setRegister_wp (h2.touch (a := .memory _) (byteAt_lt ..)) hr fun m3 h3 ↦ h3.done hd hw

theorem storeByte_meets (hop : byteAt p b = 0x31) : Meets A T p b (storeByte : VmProc W Unit) := by
  intro m h hb
  refine need_fixed hb (by rw [hop]; rfl) h fun hw hle ↦ ?_
  refine wp_bind (read8_wp h (by omega) fun m1 h1 ↦ ?_)
  refine wp_bind (read8_wp h1 (by omega) fun m2 h2 ↦ ?_)
  refine wp_bind (validRegister_wp h2 fun hs ↦ ?_)
  refine wp_bind (getRegister_wp h2 hs fun x m3 h3 ↦ ?_)
  have h4 := h3.touch (a := .memory (byteAt p (b + 1))) (byteAt_lt ..)
  exact wp_bind (wp_change (wp_change
    (Mid.done (h4.congr rfl rfl rfl rfl rfl rfl h4.log) hd hw)))

end

/-! ## The instructions that leave it

A native function may call the VM back before it returns.  By then all operands have been read, so
what it sees is a VM between two instructions, and `P` says which calls it is trusted with. -/

theorem perform_noFault (c : VmCall) (h : vm.state ≠ .fault) : (c.perform vm).state ≠ .fault := by
  have hdone := c.performed vm
  generalize c.perform vm = vm' at hdone ⊢
  cases hdone with
  | refused => exact h
  | load | run | stop | reset => nofun

/-- The calls `P` allows keep the invariant. -/
def Trusted (A : Bytes → Prop) (T : Bytes → Nat → Prop) (P : VmCall → Prop) : Prop :=
  ∀ c, P c → ∀ vm, VmInv A T vm → VmInv A T (c.perform vm)

/-- No native function makes a call that `P` does not allow. -/
def Confined (P : VmCall → Prop) (natives : VmNatives W) : Prop :=
  ∀ entry ∈ natives.entries, ∀ arguments ascii,
    (entry.implementation.callMixed arguments ascii).Issues P

theorem confined_true (natives : VmNatives W) : Confined (fun _ ↦ True) natives :=
  fun _ _ _ _ ↦ Script.issues_true _

variable {P : VmCall → Prop} {natives : VmNatives W}

theorem Confined.callMixed (hn : Confined P natives)
    {entry : NativeEntry (Script W NoobVm VmCall)} (hentry : entry ∈ natives.entries)
    (arguments : List Int) (ascii : Bytes) :
    (NativeRegistry.callMixed entry arguments ascii).Issues P := by
  rw [NativeRegistry.callMixed]
  split
  · intro w s op hop
    cases hop
  split
  · intro w s op hop
    cases hop
  · exact hn entry hentry arguments ascii

theorem syscall_blameless (id : Nat) (detail : String) :
    Blameless ("syscall " ++ toString id ++ ": " ++ detail) := by
  have hhead : ("syscall " ++ toString id ++ ": " ++ detail).toList.head? = some 's' := by
    rw [String.toList_append, String.toList_append, String.toList_append]
    rfl
  refine blameless_of_ne ?_ ?_ ?_
  · intro h
    rw [h] at hhead
    exact absurd hhead (by decide)
  · intro h
    rw [h] at hhead
    exact absurd hhead (by decide)
  · rintro ⟨rest, h⟩
    rw [← h] at hhead
    exact absurd hhead (by simp)

section

variable (hd : Discipline A T) (hP : Trusted A T P)

include hd hP

theorem native_wp {α : Type} {Q : α → Machine W → Prop} {w : Nat}
    {script : Script W NoobVm VmCall α} (hs : script.Issues P)
    (h : Mid A T p b w m) (hw : width p b = some w) (hQ : ∀ x m', Done A T m' → Q x m') :
    Wp (native script) Q (Faulted A T p b) m := by
  have hdone := h.done hd hw
  have hkeep := Script.exec_invariant (fun c (q : W × NoobVm) ↦ (q.1, c.perform q.2)) hs
    (I := fun vm ↦ VmInv A T vm ∧ vm.state ≠ .fault) (p := (m.world, m.vm))
    (fun c q hc hq ↦ ⟨hP c hc q.2 hq.1, perform_noFault c hq.2⟩) ⟨hdone.inv, hdone.noFault⟩
  exact hQ _ _ { inv := hkeep.1, log := h.log, noFault := hkeep.2 }

variable (hn : Confined P natives)

include hn

theorem dispatch_wp {d id w : Nat} {arguments : List Int} {ascii : Bytes} (hr : d < 8)
    (h : Mid A T p b w m) (hw : width p b = some w) :
    Wp (dispatch natives op d id arguments ascii) (fun _ ↦ Done A T) (Faulted A T p b) m := by
  rw [dispatch]
  split
  · exact fault_wp h (.other (blameless_of_ne (by decide) (by decide) (by decide)))
  rename_i entry hentry
  rw [resolve, Option.filter_eq_some_iff] at hentry
  refine wp_bind (native_wp hd hP (hn.callMixed (mem_of_find?_eq_some hentry.1) _ _) h hw
    fun result m1 h1 ↦ ?_)
  split
  · refine wp_bind (wp_change (wp_change {
      inv := { h1.inv with }
      log := fun a ha ↦ ?_
      noFault := h1.noFault }))
    rcases mem_cons.mp ha with rfl | ha
    · exact hr
    · exact h1.log a ha
  · exact wp_bind (wp_change (wp_exit {
      frame := { h1.inv with }
      log := h1.log
      fault := rfl
      cause := .other (syscall_blameless id _) }))

theorem syscall_meets (hop : byteAt p b = op) (hop' : op = 0x20 ∨ op = 0x22) :
    Meets A T p b (syscall natives op) := by
  intro m h hb
  have hshort (hlt : p.length < b + 5 ∨ p.length < b + 5 + byteAt p (b + 4)) :
      width p b = none := by
    rcases hop' with rfl | rfl
    · rw [width, if_neg (by omega), if_pos hop, if_neg (by omega)]
    · rw [width, if_neg (by omega), if_neg (by omega), if_pos hop, if_neg (by omega)]
  refine wp_bind (need_wp h (fun hle ↦ ?_) fun hlt ↦ hshort (.inl (by omega)))
  refine wp_bind (read8_wp h (by omega) fun m1 h1 ↦ ?_)
  refine wp_bind (read16_wp h1 (by omega) fun m2 h2 ↦ ?_)
  refine wp_bind (read8_wp h2 (by omega) fun m3 h3 ↦ ?_)
  refine wp_bind (validRegister_wp h3 fun hr ↦ ?_)
  have h5 : 1 + 1 + 2 + 1 = 5 := rfl
  rw [h5] at h3
  have h4 : b + (1 + 1 + 2) = b + 4 := by omega
  rw [h4]
  split
  · exact fault_wp h3 (.other (blameless_of_ne (by decide) (by decide) (by decide)))
  refine wp_bind (need_wp h3 (fun hle' ↦ ?_) fun hlt ↦ hshort (.inr hlt))
  refine wp_bind (readArguments_wp _ 5 h3 (by omega) fun xs m4 h4 ↦ ?_)
  rcases hop' with rfl | rfl
  · rw [if_neg (by decide)]
    refine wp_bind (wp_pure ?_)
    refine dispatch_wp hd hP hn hr h4 ?_
    rw [width, if_neg (by omega), if_pos hop, if_pos (by omega)]
  · rw [if_pos rfl]
    have hw : ∀ l, l = byteAt p (b + 5 + byteAt p (b + 4)) → width p b =
        if b + 5 + byteAt p (b + 4) < p.length ∧ b + 6 + byteAt p (b + 4) + l ≤ p.length
        then some (6 + byteAt p (b + 4) + l) else none := by
      rintro l rfl
      rw [width, if_neg (by omega), if_neg (by omega), if_pos hop]
      congr 1
      exact propext ⟨fun h ↦ h.2, fun h ↦ ⟨by omega, h⟩⟩
    refine wp_bind (wp_bind (need_wp h4 (fun hle'' ↦ ?_) fun hlt ↦ ?_))
    swap
    · rw [hw _ rfl, if_neg (by omega)]
    refine wp_bind (read8_wp h4 (by omega) fun m5 h5 ↦ ?_)
    have haddr : b + (5 + byteAt p (b + 4)) = b + 5 + byteAt p (b + 4) := by omega
    rw [haddr]
    refine wp_bind (need_wp h5 (fun hlen ↦ ?_) fun hlt ↦ ?_)
    swap
    · rw [hw _ rfl, if_neg (by omega)]
    refine readText_wp _ _ h5 hlen fun text m6 h6 ↦ ?_
    refine dispatch_wp hd hP hn hr h6 ?_
    rw [hw _ rfl, if_pos (by omega)]
    congr 1
    omega

/-! ## One instruction, whatever it is -/

/-- The switch, with the opcode the byte at `b` holds. -/
theorem execute_meets (now : Nat) : Meets A T p b (execute natives now (byteAt p b)) := by
  intro m h hb
  rw [execute]
  refine wp_ite (fun hop ↦ ?_) fun h00 ↦ ?_
  · exact wp_change {
      inv := { h.frame with at_target := nofun }
      log := h.log
      noFault := nofun }
  refine wp_ite (fun hop ↦ moveImmediate_meets hd hop m h hb) fun h01 ↦ ?_
  refine wp_ite (fun hop ↦ moveRegister_meets hd hop m h hb) fun h02 ↦ ?_
  refine wp_ite (fun hop ↦ ?_) fun h03 ↦ ?_
  · refine arithmetic_meets hd ?_ m h hb
    obtain h3 | h4 | h5 | h6 :
        byteAt p b = 3 ∨ byteAt p b = 4 ∨ byteAt p b = 5 ∨ byteAt p b = 6 := by
      omega
    · rw [h3]; rfl
    · rw [h4]; rfl
    · rw [h5]; rfl
    · rw [h6]; rfl
  refine wp_ite (fun hop ↦ jump_meets hd hop m h hb) fun h10 ↦ ?_
  refine wp_ite (fun hop ↦ branch_meets hd hop m h hb) fun h11 ↦ ?_
  refine wp_ite (fun hop ↦ callSubroutine_meets hd hop m h hb) fun h13 ↦ ?_
  refine wp_ite (fun _ ↦ ret_meets hd m h hb) fun h14 ↦ ?_
  refine wp_ite (fun hop ↦ syscall_meets hd hP hn rfl hop m h hb) fun h20 ↦ ?_
  refine wp_ite (fun hop ↦ wait_meets hd hop m h hb) fun h21 ↦ ?_
  refine wp_ite (fun hop ↦ loadByte_meets hd hop m h hb) fun h30 ↦ ?_
  refine wp_ite (fun hop ↦ storeByte_meets hd hop m h hb) fun h31 ↦ ?_
  -- no branch of the switch is left, and no line of the table of widths either
  refine fault_wp h (.unknown _ ?_ hb)
  have hnone : operandBytes (byteAt p b) = none := by
    unfold operandBytes
    split <;> first | rfl | omega
  rw [width, if_neg (by omega), if_neg (by omega), if_neg (by omega), hnone]

/-- **What one instruction can do.**  A running VM that keeps to `T` either completes the
instruction and still keeps to it, or faults with a cause; no array access is out of bounds. -/
theorem executeOne_wp (now : Nat) (hinv : VmInv A T m.vm) (hlog : ∀ a ∈ m.log, a.InBounds)
    (hrun : m.vm.state = .running) :
    Wp (executeOne natives now) (fun _ ↦ Done A T) (Faulted A T m.vm.loaded m.vm.pc) m := by
  have hbusy : m.vm.busy = true := by rw [NoobVm.busy, hrun]; rfl
  have h : Mid A T m.vm.loaded m.vm.pc 0 m :=
    ⟨hinv.toFrame, hlog, rfl, hrun, rfl, hinv.at_target hbusy⟩
  refine wp_bind (need_wp h (fun hle ↦ ?_) fun hlt ↦ width_eq_none_of_le (by omega))
  refine wp_bind (read8_wp h hle fun m1 h1 ↦ ?_)
  exact execute_meets hd hP hn now m1 h1 hle

end

end Noobia.Vm
