import Noobia.Vm.Step

/-!
# Memory safety of the virtual machine

Whatever bytes are uploaded, in whatever order the VM is loaded, run, stopped, reset and ticked, and
whatever its native functions answer or do to it meanwhile, it never reads a program byte past the
end of the program, never uses a register number above seven, and never over- or underruns its
return stack.

`Machine.runOps_induction` is the rule both this file and `Noobia.Vm.Catalog` use: a property of
machines that survives a call, a waking and an instruction survives every history.
-/

namespace Noobia

variable {W : Type} {m : Machine W}

namespace Machine

variable {I : Machine W → Prop} {natives : VmNatives W}

theorem loop_induction {now : Nat}
    (hstep : ∀ m, I m → m.vm.state = .running → I (m.step natives now)) :
    ∀ (budget : Nat) {m : Machine W}, I m → I (m.loop natives now budget)
  | 0, _, h => h
  | budget + 1, m, h => by
    rw [loop]
    split
    · rename_i hrun
      exact loop_induction hstep budget (hstep m h hrun)
    · exact h

/-- **Induction over a history.**  `P` is what the history's own calls are known to satisfy. -/
theorem runOps_induction {P : VmCall → Prop} (hcall : ∀ c m, P c → I m → I (m.withVm c.perform))
    (hwake : ∀ m, I m → m.vm.state = .waiting →
      I (m.withVm fun vm ↦ { vm with state := .running }))
    (hstep : ∀ now m, I m → m.vm.state = .running → I (m.step natives now))
    (hm : I m) {ops : List VmOp} (hops : ∀ c, .call c ∈ ops → P c) : I (m.runOps natives ops) := by
  induction ops generalizing m with
  | nil => exact hm
  | cons op ops ih =>
    refine ih (m := op.perform natives m) ?_ fun c hc ↦ hops c (List.mem_cons_of_mem _ hc)
    cases op with
    | call c => exact hcall c m (hops c (List.mem_cons_self ..)) hm
    | tick budget now waitNow =>
      refine loop_induction (hstep waitNow) budget ?_
      rw [wake]
      split
      · rename_i h
        exact hwake m hm h.1
      · exact hm

end Machine

namespace NoobVm

/-- The return addresses currently saved. -/
def savedReturns (vm : NoobVm) : List Nat := vm.returnStack.toList.take vm.stackDepth

end NoobVm

namespace Vm

open Machine Proc

/-- The positions every program may be at: inside it or at its end. -/
abbrev InProgram (p : Bytes) (t : Nat) : Prop := t ≤ p.length

/-- With no more than that asked of it, the VM may be called in any way at all. -/
theorem trusted_all : Trusted (fun _ ↦ True) InProgram fun _ ↦ True := by
  intro c _ vm h
  have hdone := c.performed vm
  generalize c.perform vm = vm' at hdone ⊢
  cases hdone with
  | refused => exact h
  | load program hle => exact ⟨⟨hle, Nat.zero_le _, Nat.zero_le _, trivial, nofun⟩, nofun⟩
  | run =>
    exact ⟨⟨h.length_le, Nat.zero_le _, Nat.zero_le _, trivial, nofun⟩, fun _ ↦ Nat.zero_le _⟩
  | stop => exact ⟨⟨h.length_le, h.pc_le, h.depth_le, trivial, h.stack⟩, nofun⟩
  | reset => exact ⟨⟨Nat.zero_le _, Nat.le_refl _, Nat.zero_le _, trivial, nofun⟩, nofun⟩

/-- The invariant of a whole history: the VM's own and that of its accesses. -/
def Safe (m : Machine W) : Prop :=
  VmInv (fun _ ↦ True) InProgram m.vm ∧ ∀ a ∈ m.log, a.InBounds

theorem safe_init (world : W) : Safe (Machine.init world) :=
  ⟨⟨⟨Nat.zero_le _, Nat.le_refl _, Nat.zero_le _, trivial, nofun⟩, nofun⟩, nofun⟩

theorem Safe.step (natives : VmNatives W) (now : Nat) (h : Safe m)
    (hrun : m.vm.state = .running) : Safe (m.step natives now) := by
  have hwp := executeOne_wp discipline_le trusted_all (confined_true natives) now h.1 h.2 hrun
  refine Wp.final (hwp.mono (fun _ m' hd ↦ ⟨hd.inv, hd.log⟩) fun m' hf ↦ ⟨⟨hf.frame, ?_⟩, hf.log⟩)
  intro hbusy
  rw [NoobVm.busy, hf.fault] at hbusy
  cases hbusy

theorem Safe.runOps (natives : VmNatives W) (h : Safe m) (ops : List VmOp) :
    Safe (m.runOps natives ops) :=
  runOps_induction (P := fun _ ↦ True) (fun c m _ hm ↦ ⟨trusted_all c trivial m.vm hm.1, hm.2⟩)
    (fun m hm hwait ↦ ⟨⟨⟨hm.1.length_le, hm.1.pc_le, hm.1.depth_le, trivial, hm.1.stack⟩,
      fun _ ↦ hm.1.at_target (by rw [NoobVm.busy, hwait]; rfl)⟩, hm.2⟩)
    (fun now m hm hrun ↦ hm.step natives now hrun) h fun _ _ ↦ trivial

/-- **The VM is memory safe.**  After every history of calls and ticks, with any program bytes, any
clock readings and any native functions, the program and the return stack are within their arrays,
the program counter and the saved return addresses are within the program, and every array access
made on the way was in bounds.  The state after any number of instructions of a tick is the state
after a tick with that number for its budget. -/
theorem memory_safe (natives : VmNatives W) (world : W) (ops : List VmOp) :
    let m := (Machine.init world).runOps natives ops
    m.vm.programLength ≤ 1024 ∧ m.vm.pc ≤ m.vm.programLength ∧ m.vm.stackDepth ≤ 8 ∧
      (∀ r ∈ m.vm.savedReturns, r ≤ m.vm.programLength) ∧ ∀ a ∈ m.log, a.InBounds := by
  intro m
  have h : Safe m := (safe_init world).runOps natives ops
  refine ⟨h.1.length_le, h.1.pc_le, h.1.depth_le, ?_, h.2⟩
  intro r hr
  obtain ⟨i, hi, rfl⟩ := List.mem_take_iff_getElem.mp hr
  have hstack := h.1.stack i (by omega)
  rw [InProgram, loaded_length h.1.length_le] at hstack
  rw [Vector.length_toList] at hi
  rw [Vector.getElem_toList]
  rw [Vector.getElem?_eq_getElem (by omega)] at hstack
  exact hstack

end Vm

end Noobia
