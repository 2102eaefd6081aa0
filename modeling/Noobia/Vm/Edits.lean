import Noobia.Lib.Int32
import Noobia.Vm.Safety

/-!
# What an instruction writes

An instruction changes the VM in small steps: it moves the program counter, writes a register, halts
or faults, and lets a native function call the VM.  `Edit` is the list of these steps, and
`step_edits` says that nothing else happens.  Where a property of the VM is kept by each of them, it
is kept by every instruction; `Noobia.Vm.Report` and `Noobia.Vm.Arithmetic` are two examples.

What a native function answers is one of the values that are written to registers.  Whatever is
known about such answers is the parameter `P`.
-/

namespace Noobia.Vm

open Proc VmProc

/-- A change of the VM, in an instruction that reads `now` from the clock. -/
inductive Edit (P : Int → Prop) (now : Nat) (vm : NoobVm) : NoobVm → Prop
  | pc (pc : Nat) : Edit P now vm { vm with pc }
  /-- A register is written: a number made by the instruction, an answer, or another register. -/
  | register (index : Nat) {value : Int}
    (h : IsInt32 value ∨ P value ∨ ∃ i : Nat, value = vm.registers[i]?.getD 0) :
    Edit P now vm { vm with registers := vm.registers.setIfInBounds index value }
  | memory (memory : Vector UInt8 256) : Edit P now vm { vm with memory }
  /-- The return stack grows or shrinks. -/
  | stack (returnStack : Vector Nat 8) (stackDepth pc : Nat) :
    Edit P now vm { vm with returnStack, stackDepth, pc }
  | halt (hrun : vm.state = .running) : Edit P now vm { vm with state := .halted }
  | wait {delay : Nat} (h : delay < 2 ^ 16) (hrun : vm.state = .running) :
    Edit P now vm { vm with wakeAt := (now + delay) % 2 ^ 32, state := .waiting }
  | fault {message : String} (h : message ≠ "") :
    Edit P now vm { vm with faultMessage := message, state := .fault }
  /-- A native function calls the VM. -/
  | call (c : VmCall) (h : vm.state ≠ .fault) : Edit P now vm (c.perform vm)

/-- Any number of such changes. -/
abbrev Edits (P : Int → Prop) (now : Nat) : NoobVm → NoobVm → Prop :=
  Relation.ReflTransGen (Edit P now)

variable {W α β : Type} {P : Int → Prop} {now : Nat}

theorem Edits.invariant {I : NoobVm → Prop} {vm vm' : NoobVm} (h : Edits P now vm vm')
    (hkeep : ∀ vm vm', I vm → Edit P now vm vm' → I vm') (hvm : I vm) : I vm' := by
  induction h with
  | refl => exact hvm
  | tail _ hedit ih => exact hkeep _ _ ih hedit

/-! ## Parts of an instruction -/

/-- A part of an instruction, after which the VM is running unless the part gives up.  `V` is what
is known of the value it produces. -/
def Works (P : Int → Prop) (now : Nat) (p : VmProc W α) (V : α → Prop := fun _ ↦ True) : Prop :=
  ∀ m : Machine W, m.vm.state = .running →
    Wp p (fun a m' ↦ V a ∧ Edits P now m.vm m'.vm ∧ m'.vm.state = .running)
      (fun m' ↦ Edits P now m.vm m'.vm) m

/-- The last part of an instruction. -/
def Ends (P : Int → Prop) (now : Nat) (p : VmProc W α) : Prop :=
  ∀ m : Machine W, m.vm.state = .running →
    Wp p (fun _ m' ↦ Edits P now m.vm m'.vm) (fun m' ↦ Edits P now m.vm m'.vm) m

variable {U : β → Prop} {V : α → Prop}

variable {p q : VmProc W α} {f : α → VmProc W β} {message : String} (target index opcode : Nat)

theorem Works.ends (h : Works P now p V) : Ends P now p :=
  fun m hm ↦ (h m hm).mono (fun _ _ h ↦ h.2.1) fun _ h ↦ h

theorem works_pure {a : α} (ha : V a) : Works P now (pure a : VmProc W α) V :=
  fun _ hm ↦ wp_pure ⟨ha, .refl, hm⟩

theorem Works.bind (hp : Works P now p V) (hf : ∀ a, V a → Works P now (f a) U) :
    Works P now (p >>= f) U := by
  refine fun m hm ↦ wp_bind ((hp m hm).mono (fun a m' h ↦ ?_) fun _ h ↦ h)
  exact (hf a h.1 m' h.2.2).mono (fun _ _ h' ↦ ⟨h'.1, h.2.1.trans h'.2.1, h'.2.2⟩) fun _ h' ↦
    h.2.1.trans h'

theorem Works.bind_ends (hp : Works P now p V) (hf : ∀ a, V a → Ends P now (f a)) :
    Ends P now (p >>= f) := by
  refine fun m hm ↦ wp_bind ((hp m hm).mono (fun a m' h ↦ ?_) fun _ h ↦ h)
  exact (hf a h.1 m' h.2.2).mono (fun _ _ h' ↦ h.2.1.trans h') fun _ h' ↦ h.2.1.trans h'

theorem works_ite {c : Prop} [Decidable c] (hp : Works P now p V) (hq : Works P now q V) :
    Works P now (if c then p else q) V :=
  fun m hm ↦ wp_ite (fun _ ↦ hp m hm) fun _ ↦ hq m hm

theorem ends_ite {c : Prop} [Decidable c] (hp : Ends P now p) (hq : Ends P now q) :
    Ends P now (if c then p else q) :=
  fun m hm ↦ wp_ite (fun _ ↦ hp m hm) fun _ ↦ hq m hm

theorem works_value (V : α → Prop) {f : Machine W → α} (hf : ∀ m, V (f m)) :
    Works P now (Proc.read f : VmProc W α) V :=
  fun m hm ↦ wp_read ⟨hf m, .refl, hm⟩

theorem works_read (f : Machine W → α) : Works P now (Proc.read f : VmProc W α) :=
  works_value _ fun _ ↦ trivial

theorem works_touch (f : Machine W → Access) :
    Works P now (Proc.change fun m ↦ m.touch (f m) : VmProc W Unit) :=
  fun _ hm ↦ wp_change ⟨trivial, .refl, hm⟩

theorem works_edit {f : NoobVm → NoobVm}
    (h : ∀ vm, vm.state = .running → Edit P now vm (f vm) ∧ (f vm).state = .running) :
    Works P now (Proc.change (Machine.withVm f) : VmProc W Unit) :=
  fun m hm ↦ wp_change ⟨trivial, .single (h m.vm hm).1, (h m.vm hm).2⟩

theorem ends_edit {f : NoobVm → NoobVm} (h : ∀ vm, vm.state = .running → Edit P now vm (f vm)) :
    Ends P now (Proc.change (Machine.withVm f) : VmProc W Unit) :=
  fun m hm ↦ wp_change (.single (h m.vm hm))

theorem works_fault (h : message ≠ "") : Works P now (fault message : VmProc W α) V :=
  fun _ _ ↦ wp_bind (wp_change (wp_exit (.single (.fault h))))

theorem ends_fault (h : message ≠ "") : Ends P now (fault message : VmProc W α) :=
  (works_fault (V := fun _ ↦ True) h).ends

theorem works_need (bytes : Nat) : Works P now (need bytes : VmProc W Unit) :=
  (works_read _).bind fun _ _ ↦ works_ite (works_pure trivial)
    (works_fault (by decide))

theorem works_setPc : Works P now (setPc target : VmProc W Unit) :=
  works_edit fun _ h ↦ ⟨.pc target, h⟩

theorem works_read8 : Works P now (read8 : VmProc W Nat) (· < 2 ^ 8) :=
  (works_read _).bind fun _ _ ↦ (works_value (· < 2 ^ 8) fun _ ↦ UInt8.toNat_lt _).bind fun _ h ↦
    (works_touch _).bind fun _ _ ↦ (works_setPc _).bind fun _ _ ↦ works_pure h

theorem works_read16 : Works P now (read16 : VmProc W Nat) (· < 2 ^ 16) := by
  refine (works_read _).bind fun _ _ ↦ ?_
  refine (works_value (· < 2 ^ 8) fun _ ↦ UInt8.toNat_lt _).bind fun low hlow ↦ ?_
  refine (works_value (· < 2 ^ 8) fun _ ↦ UInt8.toNat_lt _).bind fun high hhigh ↦ ?_
  refine (works_touch _).bind fun _ _ ↦ (works_touch _).bind fun _ _ ↦ ?_
  refine (works_setPc _).bind fun _ _ ↦ works_pure ?_
  omega

theorem works_read32 : Works P now (read32 : VmProc W Int) IsInt32 :=
  works_read8.bind fun _ _ ↦ works_read8.bind fun _ _ ↦ works_read8.bind fun _ _ ↦
    works_read8.bind fun _ _ ↦ works_pure (isInt32_bmod _)

theorem works_validRegister : Works P now (validRegister index : VmProc W Unit) :=
  works_ite (works_pure trivial) (works_fault (by decide))

theorem works_getRegister : Works P now (getRegister index : VmProc W Int) :=
  (works_touch _).bind fun _ _ ↦ works_read _

theorem works_setRegister {value : Int} (h : IsInt32 value ∨ P value) :
    Works P now (setRegister index value : VmProc W Unit) :=
  (works_touch _).bind fun _ _ ↦ works_edit fun _ hvm ↦ ⟨.register index (h.imp_right .inl), hvm⟩

theorem works_readArguments (count : Nat) :
    Works P now (readArguments count : VmProc W (List Int)) := by
  induction count with
  | zero => exact works_pure trivial
  | succ count ih =>
    exact works_read8.bind fun _ _ ↦ (works_validRegister _).bind fun _ _ ↦
      (works_getRegister _).bind fun _ _ ↦ ih.bind fun _ _ ↦ works_pure trivial

theorem works_readText (length : Nat) : Works P now (readText length : VmProc W Bytes) := by
  induction length with
  | zero => exact works_pure trivial
  | succ length ih => exact works_read8.bind fun _ _ ↦ ih.bind fun _ _ ↦ works_pure trivial

theorem works_readLiteral : Works P now (readLiteral : VmProc W Bytes) :=
  (works_need _).bind fun _ _ ↦ works_read8.bind fun _ _ ↦ (works_need _).bind fun _ _ ↦
    works_readText _

/-! ## The instructions -/

theorem ends_moveImmediate : Ends P now (moveImmediate : VmProc W Unit) :=
  (works_need _).bind_ends fun _ _ ↦ works_read8.bind_ends fun _ _ ↦
    works_read32.bind_ends fun _ hv ↦ (works_validRegister _).bind_ends fun _ _ ↦
      (works_setRegister _ (.inl hv)).ends

theorem ends_copy (d s : Nat) :
    Ends P now (do setRegister d (← getRegister s) : VmProc W Unit) := by
  refine fun m _ ↦ wp_bind (wp_bind (wp_change (wp_read ?_)))
  exact wp_bind (wp_change (wp_change (.single (.register d (.inr (.inr ⟨s, rfl⟩))))))

theorem ends_moveRegister : Ends P now (moveRegister : VmProc W Unit) :=
  (works_need _).bind_ends fun _ _ ↦ works_read8.bind_ends fun _ _ ↦
    works_read8.bind_ends fun _ _ ↦ (works_validRegister _).bind_ends fun _ _ ↦
      (works_validRegister _).bind_ends fun _ _ ↦ ends_copy _ _

theorem ends_arithmetic : Ends P now (arithmetic opcode : VmProc W Unit) := by
  refine (works_need _).bind_ends fun _ _ ↦ ?_
  refine works_read8.bind_ends fun _ _ ↦ works_read8.bind_ends fun _ _ ↦ ?_
  refine works_read8.bind_ends fun _ _ ↦ (works_validRegister _).bind_ends fun _ _ ↦ ?_
  refine (works_validRegister _).bind_ends fun _ _ ↦ (works_validRegister _).bind_ends fun _ _ ↦ ?_
  refine (works_getRegister _).bind_ends fun _ _ ↦ (works_getRegister _).bind_ends fun _ _ ↦ ?_
  exact ends_ite (ends_fault (by decide)) (works_setRegister _ (.inl (isInt32_bmod _))).ends

theorem ends_jumpTo : Ends P now (jumpTo target : VmProc W Unit) :=
  (works_read _).bind_ends fun _ _ ↦ ends_ite (ends_fault (by decide)) (works_setPc _).ends

theorem ends_jump : Ends P now (jump : VmProc W Unit) :=
  (works_need _).bind_ends fun _ _ ↦ works_read16.bind_ends fun _ _ ↦ ends_jumpTo _

theorem ends_branch : Ends P now (branch opcode : VmProc W Unit) :=
  (works_need _).bind_ends fun _ _ ↦ works_read8.bind_ends fun _ _ ↦
    works_read16.bind_ends fun _ _ ↦ (works_validRegister _).bind_ends fun _ _ ↦
      (works_getRegister _).bind_ends fun _ _ ↦
        ends_ite (ends_jumpTo _) (works_pure (V := fun _ ↦ True) trivial).ends

theorem ends_callSubroutine : Ends P now (callSubroutine : VmProc W Unit) := by
  refine (works_need _).bind_ends fun _ _ ↦ works_read16.bind_ends fun _ _ ↦ ?_
  refine (works_read _).bind_ends fun _ _ ↦ ?_
  refine ends_ite (ends_fault (by decide)) ?_
  refine (works_read _).bind_ends fun _ _ ↦ (works_touch _).bind_ends fun _ _ ↦ ?_
  exact ends_edit fun _ _ ↦ .stack _ _ _

theorem ends_ret : Ends P now (ret : VmProc W Unit) := by
  refine (works_read _).bind_ends fun _ _ ↦ ?_
  refine ends_ite (ends_fault (by decide)) ?_
  exact (works_touch _).bind_ends fun _ _ ↦ ends_edit fun _ _ ↦ .stack _ _ _

theorem ends_wait : Ends P now (wait now : VmProc W Unit) :=
  (works_need _).bind_ends fun _ _ ↦ works_read16.bind_ends fun _ h _ hm ↦
    wp_bind (wp_change (wp_change (.single (.wait h hm))))

theorem ends_loadByte : Ends P now (loadByte : VmProc W Unit) :=
  (works_need _).bind_ends fun _ _ ↦ works_read8.bind_ends fun _ _ ↦
    works_read8.bind_ends fun _ _ ↦ (works_validRegister _).bind_ends fun _ _ ↦
      (works_touch _).bind_ends fun _ _ ↦ (works_value _ fun _ ↦ isInt32_byte _).bind_ends fun _ h ↦
        (works_setRegister _ (.inl h)).ends

theorem ends_storeByte : Ends P now (storeByte : VmProc W Unit) :=
  (works_need _).bind_ends fun _ _ ↦ works_read8.bind_ends fun _ _ ↦
    works_read8.bind_ends fun _ _ ↦ (works_validRegister _).bind_ends fun _ _ ↦
      (works_getRegister _).bind_ends fun _ _ ↦ (works_touch _).bind_ends fun _ _ ↦
        ends_edit fun _ _ ↦ .memory _

/-- What is known of the answers of native functions. -/
def Answers (P : Int → Prop) (natives : VmNatives W) : Prop :=
  ∀ entry ∈ natives.entries, ∀ arguments ascii world vm,
    P ((entry.implementation.callMixed arguments ascii).answer world vm).value

variable {natives : VmNatives W}

/-- The registry answers for a function, or fails without asking it. -/
theorem Answers.callMixed (hn : Answers P natives)
    {entry : NativeEntry (Script W NoobVm VmCall)} (hentry : entry ∈ natives.entries)
    (arguments : List Int) (ascii : Bytes) (world : W) (vm : NoobVm)
    (hok : ((NativeRegistry.callMixed entry arguments ascii).answer world vm).ok = true) :
    P ((NativeRegistry.callMixed entry arguments ascii).answer world vm).value := by
  rw [NativeRegistry.callMixed] at hok ⊢
  split
  · rename_i hlong
    rw [if_pos hlong] at hok
    cases hok
  rename_i hshort
  rw [if_neg hshort] at hok
  split
  · rename_i hprint
    rw [if_pos hprint] at hok
    cases hok
  · exact hn entry hentry arguments ascii world vm

/-- The calls a native function makes on the VM are changes like any other. -/
theorem exec_edits (script : Script W NoobVm VmCall α) (world : W) {vm : NoobVm}
    (h : vm.state = .running) :
    Edits P now vm (script.exec (fun c q ↦ (q.1, c.perform q.2)) (world, vm)).2.2 := by
  have hkeep := Script.exec_invariant (fun c (q : W × NoobVm) ↦ (q.1, c.perform q.2))
    script.issues_true (I := fun vm' ↦ Edits P now vm vm' ∧ vm'.state ≠ .fault) (p := (world, vm))
    (fun c q _ hq ↦ ⟨hq.1.tail (.call c hq.2), perform_noFault c hq.2⟩)
    ⟨.refl, by rw [h]; nofun⟩
  exact hkeep.1

theorem syscall_message_ne (id : Nat) (detail : String) :
    "syscall " ++ toString id ++ ": " ++ detail ≠ "" := by
  intro h
  have hlist := congrArg String.toList h
  rw [String.toList_append, String.toList_append, String.toList_append] at hlist
  exact absurd hlist (by simp)

theorem ends_dispatch (hn : Answers P natives) (opcode d id : Nat) (arguments : List Int)
    (ascii : Bytes) : Ends P now (dispatch natives opcode d id arguments ascii) := by
  rw [dispatch]
  split
  · exact ends_fault (by decide)
  rename_i entry hentry
  rw [resolve, Option.filter_eq_some_iff] at hentry
  have hmem := List.mem_of_find?_eq_some hentry.1
  refine fun m hm ↦ wp_bind ?_
  have hcalls : Edits P now m.vm _ :=
    exec_edits (NativeRegistry.callMixed entry arguments ascii) m.world hm
  refine wp_ite (fun hok ↦ ?_) fun _ ↦ ?_
  · have hvalue := hn.callMixed hmem arguments ascii m.world m.vm hok
    exact wp_bind (wp_change (wp_change (hcalls.tail (.register d (.inr (.inl hvalue))))))
  · exact wp_bind (wp_change (wp_exit (hcalls.tail (.fault (syscall_message_ne _ _)))))

theorem ends_syscall (hn : Answers P natives) (opcode : Nat) :
    Ends P now (syscall natives opcode) := by
  refine (works_need _).bind_ends fun _ _ ↦ works_read8.bind_ends fun _ _ ↦ ?_
  refine works_read16.bind_ends fun _ _ ↦ works_read8.bind_ends fun _ _ ↦ ?_
  refine (works_validRegister _).bind_ends fun _ _ ↦ ends_ite (ends_fault (by decide)) ?_
  refine (works_need _).bind_ends fun _ _ ↦ (works_readArguments _).bind_ends fun _ _ ↦ ?_
  refine ends_ite (works_readLiteral.bind_ends fun _ _ ↦ ends_dispatch hn _ _ _ _ _) ?_
  exact (works_pure (V := fun _ ↦ True) trivial).bind_ends fun _ _ ↦
    ends_dispatch hn _ _ _ _ _

theorem unknown_message_ne : "unknown opcode " ++ toString opcode ≠ "" := by
  intro h
  have hlist := congrArg String.toList h
  rw [String.toList_append] at hlist
  exact absurd hlist (by simp)

theorem ends_execute (hn : Answers P natives) (opcode : Nat) :
    Ends P now (execute natives now opcode) := by
  refine ends_ite (ends_edit fun _ h ↦ .halt h) <| ends_ite ends_moveImmediate <| ?_
  refine ends_ite ends_moveRegister <| ends_ite (ends_arithmetic _) <| ends_ite ends_jump <| ?_
  refine ends_ite (ends_branch _) <| ends_ite ends_callSubroutine <| ends_ite ends_ret <| ?_
  refine ends_ite (ends_syscall hn _) <| ends_ite ends_wait <| ends_ite ends_loadByte <| ?_
  exact ends_ite ends_storeByte (ends_fault (unknown_message_ne _))

/-- **An instruction writes nothing but what `Edit` lists.** -/
theorem step_edits (hn : Answers P natives) {m : Machine W} (hrun : m.vm.state = .running) :
    Edits P now m.vm (m.step natives now).vm := by
  have h : Ends P now (executeOne natives now) :=
    (works_need _).bind_ends fun _ _ ↦ works_read8.bind_ends fun _ _ ↦ ends_execute hn _
  exact Wp.final (R := fun m' : Machine W ↦ Edits P now m.vm m'.vm) (h m hrun)

end Noobia.Vm
