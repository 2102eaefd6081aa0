import Noobia.Esp.Protocol
import Noobia.Lib.Trace
import Noobia.Vm.Edits

/-!
# What the status line says about faults

`NoobVm::status` ends with ` fault=` and a text if the VM has a fault text.  A fault sets the text
and the state together, and every other change of the state leaves the text empty or finds it so,
except one: `run()` on a VM that has faulted starts its program again and does not clear the text,
so that a VM that is running, and one that has then halted or waits, goes on reporting the fault
before.

`reports_iff_fault` says that this is all: along any run, the status line and the state agree in
every state if and only if nobody runs a VM with a program in it while it is in the state `FAULT`.
-/

namespace Noobia

open List

/-! ## The text of the status line -/

theorem not_mem_toString_nat (n : Nat) : 'f' ∉ (toString n).toList := by
  intro h
  have hdigit := Nat.isDigit_of_mem_toDigits (by decide) (by decide)
    (show 'f' ∈ Nat.toDigits 10 n by simpa using h)
  exact absurd hdigit (by decide)

theorem not_mem_toString_int (n : Int) : 'f' ∉ (toString n).toList := by
  cases n with
  | ofNat n => exact not_mem_toString_nat n
  | negSucc n =>
    show 'f' ∉ ("-" ++ toString (n + 1)).toList
    rw [String.toList_append, mem_append]
    rintro (h | h)
    · exact absurd h (by decide)
    · exact not_mem_toString_nat (n + 1) h

theorem not_mem_name (state : VmState) : 'f' ∉ state.name.toList := by
  cases state <;> decide

theorem mem_of_mem_intercalate {c : Char} {separator : List Char} {texts : List (List Char)}
    (h : c ∈ separator.intercalate texts) : c ∈ separator ∨ ∃ text ∈ texts, c ∈ text := by
  induction texts with
  | nil => simp at h
  | cons text texts ih =>
    cases texts with
    | nil => exact .inr ⟨text, by simp, by simpa using h⟩
    | cons next texts =>
      rw [intercalate_cons_cons, mem_append, mem_append] at h
      rcases h with (h | h) | h
      · exact .inr ⟨text, by simp, h⟩
      · exact .inl h
      obtain h | ⟨t, ht, h⟩ := ih h
      · exact .inl h
      · exact .inr ⟨t, mem_cons_of_mem _ ht, h⟩

variable {vm : NoobVm}

namespace NoobVm

/-- The part of the status line in front of a fault text. -/
def statusLine (vm : NoobVm) : String :=
  "state=" ++ vm.state.name ++ " pc=" ++ toString vm.pc ++ " bytes=" ++ toString vm.programLength ++
    " regs=" ++ ",".intercalate (vm.registers.toList.map toString)

theorem not_mem_statusLine (vm : NoobVm) : 'f' ∉ vm.statusLine.toList := by
  have hregisters : 'f' ∉ (",".intercalate (vm.registers.toList.map toString)).toList := by
    rw [String.toList_intercalate, map_map]
    intro h
    obtain h | ⟨text, htext, h⟩ := mem_of_mem_intercalate h
    · simp at h
    · obtain ⟨n, -, rfl⟩ := mem_map.mp htext
      exact not_mem_toString_int n h
  simp only [statusLine, String.toList_append, mem_append, not_or]
  refine ⟨⟨⟨⟨⟨⟨⟨?_, not_mem_name _⟩, ?_⟩, not_mem_toString_nat _⟩, ?_⟩,
    not_mem_toString_nat _⟩, ?_⟩,
    hregisters⟩ <;> simp

/-- The status line contains a fault text. -/
def ReportsFault (vm : NoobVm) : Prop := " fault=".toList <:+: vm.status.toList

theorem reportsFault_iff (vm : NoobVm) : vm.ReportsFault ↔ vm.faultMessage ≠ "" := by
  have hstatus : vm.status =
      vm.statusLine ++ if vm.faultMessage = "" then "" else " fault=" ++ vm.faultMessage := rfl
  rw [ReportsFault, hstatus]
  split
  · rename_i hempty
    rw [String.append_empty]
    refine iff_of_false (fun h ↦ ?_) fun h ↦ h hempty
    exact not_mem_statusLine vm (h.subset (by simp))
  · rename_i hsome
    refine iff_of_true ?_ hsome
    rw [String.toList_append, String.toList_append]
    exact ⟨vm.statusLine.toList, vm.faultMessage.toList, by rw [append_assoc]⟩

/-- The status line contains a fault text if and only if the VM is in the state `FAULT`. -/
def Reports (vm : NoobVm) : Prop := vm.ReportsFault ↔ vm.state = .fault

theorem reports_iff (vm : NoobVm) : vm.Reports ↔ (vm.faultMessage ≠ "" ↔ vm.state = .fault) := by
  rw [Reports, reportsFault_iff]

theorem reports_of_empty (hmessage : vm.faultMessage = "")
    (hstate : vm.state ≠ .fault) : vm.Reports :=
  (reports_iff vm).mpr (iff_of_false (fun h ↦ h hmessage) hstate)

theorem Reports.congr {vm' : NoobVm} (h : vm.Reports)
    (hmessage : vm'.faultMessage = vm.faultMessage)
    (hstate : vm'.state = .fault ↔ vm.state = .fault) : vm'.Reports := by
  rw [reports_iff] at h ⊢
  rw [hmessage, h, hstate]

end NoobVm

/-! ## Calls and instructions -/

/-- The call starts the program of a VM that has faulted. -/
def VmCall.Revives (vm : NoobVm) (c : VmCall) : Prop :=
  c = .run ∧ vm.state = .fault ∧ vm.programLength ≠ 0

namespace Vm

open NoobVm

variable {W : Type}

theorem perform_reports (c : VmCall) (h : vm.Reports) (hc : ¬ c.Revives vm) :
    (c.perform vm).Reports := by
  have hdone := c.performed vm
  generalize c.perform vm = vm' at hdone ⊢
  cases hdone with
  | refused => exact h
  | load | reset => exact reports_of_empty rfl (by rintro ⟨⟩)
  | run hlength =>
    have hstate : vm.state ≠ .fault := fun hfault ↦ hc ⟨rfl, hfault, hlength⟩
    exact h.congr rfl (iff_of_false (by simp) hstate)
  | stop hbusy =>
    have hstate : vm.state ≠ .fault := by
      intro hfault
      simp [busy, hfault] at hbusy
    exact h.congr rfl (iff_of_false (by simp) hstate)

/-- A VM that is started after a fault keeps the text of the fault. -/
theorem not_reports_of_revives {c : VmCall} (h : vm.Reports) (hc : c.Revives vm) :
    ¬ (c.perform vm).Reports := by
  obtain ⟨rfl, hfault, hlength⟩ := hc
  have hmessage := ((reports_iff vm).mp h).mpr hfault
  have hrun : VmCall.perform .run vm = { vm with pc := 0, stackDepth := 0, state := .running } := by
    simp [VmCall.perform, run, hlength, busy, hfault, Except.toOption]
  rw [hrun, reports_iff]
  exact fun hnow ↦ by cases hnow.mp hmessage

theorem edit_reports {P : Int → Prop} {now : Nat} (vm vm' : NoobVm) (h : vm.Reports)
    (hedit : Edit P now vm vm') : vm'.Reports := by
  cases hedit with
  | pc | register | memory | stack => exact h.congr rfl .rfl
  | halt hrun | wait _ hrun => exact h.congr rfl (iff_of_false nofun (by rw [hrun]; nofun))
  | fault hmessage => exact (reports_iff _).mpr (iff_of_true hmessage rfl)
  | call c hstate => exact perform_reports c h fun hc ↦ hstate hc.2.1

/-- A tick never breaks the report: its native functions are called while the VM is running. -/
theorem tick_reports (natives : VmNatives W) (budget now waitNow : Nat) {m : Machine W}
    (h : m.vm.Reports) : (m.tick natives budget now waitNow).vm.Reports := by
  refine Machine.loop_induction (I := fun m ↦ m.vm.Reports) (fun m hm hrun ↦ ?_) budget ?_
  · have hedits : Edits (fun _ ↦ True) waitNow m.vm (m.step natives waitNow).vm :=
      step_edits (fun _ _ _ _ _ _ ↦ trivial) hrun
    exact hedits.invariant edit_reports hm
  rw [Machine.wake]
  split
  · rename_i hwait
    exact h.congr rfl (iff_of_false (by rintro ⟨⟩) (by simp [hwait.1]))
  · exact h

/-! ## Whole runs -/

/-- Nobody runs a VM with a program in it while it is in the state `FAULT`. -/
def Mindful (m : Machine W) : VmOp → Prop
  | .call c => ¬ c.Revives m.vm
  | .tick _ _ _ => True

/-- **The status line reports a fault exactly in the state `FAULT`, in every state of a run, if and
only if no VM is run again after a fault**: whatever its programs, its native functions and the
clock. -/
theorem reports_iff_fault (natives : VmNatives W) (world : W) (ops : List VmOp) :
    Trace.Always (fun m op ↦ op.perform natives m) (fun m : Machine W ↦ m.vm.Reports)
        (Machine.init world) ops ↔
      Trace.Throughout (fun m op ↦ op.perform natives m) Mindful (Machine.init world) ops := by
  have hinit : (Machine.init world).vm.Reports := reports_of_empty rfl fun h ↦ nomatch h
  refine Trace.always_iff_throughout ?_ (fun _ h ↦ h) ?_ hinit
  · intro m op h hop
    cases op with
    | call c => exact perform_reports c h hop
    | tick budget now waitNow => exact tick_reports natives budget now waitNow h
  · intro m op h hop
    cases op with
    | call c => exact not_reports_of_revives h (not_not.mp hop)
    | tick budget now waitNow => exact absurd trivial hop

/-- A program of one byte that is no instruction is loaded, run, ticked and run again: the VM is
running, and its status line ends with the fault. -/
theorem reports_after_restart :
    let m := (Machine.init ()).runOps (⟨[]⟩ : VmNatives Unit)
      [.call (.load [0xff]), .call .run, .tick 1 0 0, .call .run]
    m.vm.state = .running ∧ m.vm.ReportsFault := by
  intro m
  rw [reportsFault_iff]
  refine ⟨by decide +kernel, by decide +kernel⟩

end Vm

end Noobia
