import Noobia.Vm.Safety

/-!
# The program catalogue and what its check is worth

`update-vm-catalog.mjs` publishes the programs that ship with the repository, and before it does it
sweeps each one from its first byte to its last, recording where instructions begin and where jumps
go.  A program that ends inside an instruction, holds an unknown opcode or jumps anywhere but to the
beginning of an instruction is refused.

The script and the interpreter share no code.  This file shows that the script's idea of a program
is nevertheless the interpreter's: on a program the check accepts, the VM only ever stands at the
beginning of an instruction or at the end of the program, so that two of its faults cannot happen
and a third only by running off the end.
-/

namespace Noobia.Catalog

open List

open Vm

/-! ## The check -/

/-- The map `fixed`: the operand bytes of every opcode but the two syscalls. -/
def fixed : List (Nat × Nat) :=
  [(0, 0), (1, 5), (2, 2), (3, 3), (4, 3), (5, 3), (6, 3), (0x10, 2), (0x11, 3), (0x12, 3),
    (0x13, 2), (0x14, 0), (0x21, 2), (0x30, 2), (0x31, 2)]

/-- What the sweep collects. -/
structure Scan where
  /-- Where instructions begin. -/
  boundaries : List Nat := []
  /-- Where jumps go. -/
  jumps : List Nat := []
  /-- Which native functions are called. -/
  calls : List Nat := []
  deriving DecidableEq, Repr

/-- `offset`: where the address of a jump is, `pc` being past the opcode. -/
def jumpOffset (op pc : Nat) : Nat := pc + if op = 0x11 ∨ op = 0x12 then 1 else 0

/-- One turn of the loop at a `pc` inside the program: the new `pc`, and the scan with what this
instruction adds.  A `pc` that has become `NaN`, by adding a byte past the end, is `none`. -/
def advance (bytes : Bytes) (file : String) (pc : Nat) (scan : Scan) :
    Except String (Option Nat × Scan) :=
  let scan := { scan with boundaries := pc :: scan.boundaries }
  let op := byteAt bytes pc
  let pc := pc + 1
  if op = 0x20 ∨ op = 0x22 then
    if bytes.length < pc + 4 then .error ("truncated syscall: " ++ file)
    else
      let scan := { scan with calls := wordAt bytes (pc + 1) :: scan.calls }
      let pc := pc + (4 + byteAt bytes (pc + 3))
      if op = 0x22 then
        .ok (if pc < bytes.length then some (pc + (1 + byteAt bytes pc)) else none, scan)
      else .ok (some pc, scan)
  else match fixed.lookup op with
    | some operands =>
      if op ∈ [0x10, 0x11, 0x12, 0x13] then
        if bytes.length < jumpOffset op pc + 2 then .error ("truncated jump: " ++ file)
        else .ok (some (pc + operands),
          { scan with jumps := wordAt bytes (jumpOffset op pc) :: scan.jumps })
      else .ok (some (pc + operands), scan)
    | none => .error ("unknown opcode " ++ toString op ++ ": " ++ file)

theorem advance_lt {bytes : Bytes} {file : String} {pc next : Nat} {scan scan' : Scan}
    (h : advance bytes file pc scan = .ok (some next, scan')) : pc < next := by
  rw [advance] at h
  dsimp only at h
  split at h
  · split at h
    · cases h
    split at h
    · split at h
      · cases h; omega
      · cases h
    · cases h; omega
  · split at h
    · split at h
      · split at h
        · cases h
        · cases h; omega
      · cases h; omega
    · cases h

/-- `while (pc < bytes.length) { … }`. -/
def sweep (bytes : Bytes) (file : String) (pc : Nat) (scan : Scan) : Except String Scan :=
  if bytes.length ≤ pc then .ok scan
  else match h : advance bytes file pc scan with
    | .error e => .error e
    | .ok (none, _) => .error ("truncated instruction: " ++ file)
    | .ok (some next, scan') =>
      if bytes.length < next then .error ("truncated instruction: " ++ file)
      else
        have := advance_lt h
        sweep bytes file next scan'
termination_by bytes.length - pc
decreasing_by omega

theorem sweep_of_advance {bytes : Bytes} {file : String} {pc next : Nat} {scan scan' : Scan}
    (hpc : pc < bytes.length) (h : advance bytes file pc scan = .ok (some next, scan'))
    (hle : next ≤ bytes.length) : sweep bytes file pc scan = sweep bytes file next scan' := by
  rw [sweep, if_neg (by omega)]
  split
  · rename_i h'
    rw [h] at h'
    cases h'
  · rename_i h'
    rw [h] at h'
    cases h'
  rename_i h'
  rw [h] at h'
  cases h'
  rw [if_neg (by omega)]

/-- The sweep and then `for (const target of jumps) …`. -/
def check (bytes : Bytes) (file : String) : Except String Scan := do
  let scan ← sweep bytes file 0 {}
  match scan.jumps.reverse.find? fun t ↦ t ∉ scan.boundaries with
  | some t => .error ("invalid jump " ++ toString t ++ ": " ++ file)
  | none => return scan

/-- The program passes. -/
def Accepts (bytes : Bytes) : Prop := ∃ file scan, check bytes file = .ok scan

/-! ## The linear decoding -/

/-- Where the instructions of `p` begin when it is read from its first byte on. -/
inductive InstructionStart (p : Bytes) : Nat → Prop
  | first (h : 0 < p.length) : InstructionStart p 0
  | next {b w : Nat} (h : InstructionStart p b) (hw : width p b = some w) (hlt : b + w < p.length) :
      InstructionStart p (b + w)

theorem InstructionStart.lt {p : Bytes} {b : Nat} (h : InstructionStart p b) : b < p.length := by
  cases h with
  | first h => exact h
  | next _ _ hlt => exact hlt

theorem lookup_fixed (op : Nat) : fixed.lookup op = operandBytes op := by
  unfold operandBytes
  split
  all_goals first
    | rfl
    | rw [lookup_eq_none_iff]
      simp only [fixed, mem_cons, not_mem_nil, or_false, forall_eq_or_imp, forall_eq,
        bne_iff_ne, ne_eq]
      tauto

variable {p : Bytes} {file : String} {b : Nat} {scan scan' : Scan}

/-- What a turn of the loop knows about its instruction. -/
theorem advance_spec {next : Nat} (hb : b < p.length)
    (h : advance p file b scan = .ok (some next, scan')) (hle : next ≤ p.length) :
    ∃ w, width p b = some w ∧ next = b + w ∧ scan'.boundaries = b :: scan.boundaries ∧
      (∀ t ∈ scan.jumps, t ∈ scan'.jumps) ∧ ∀ t, target p b = some t → t ∈ scan'.jumps := by
  rw [advance] at h
  dsimp only at h
  split at h
  · rename_i hop
    have htarget : target p b = none := by
      rw [target, if_neg (by omega), if_neg (by omega)]
    split at h
    · cases h
    have hidx : b + 1 + 3 = b + 4 := by omega
    rw [hidx] at h
    split at h
    · rename_i hlen hop22
      split at h
      · rename_i hlt
        have hidx' : b + 1 + (4 + byteAt p (b + 4)) = b + 5 + byteAt p (b + 4) := by omega
        rw [hidx'] at h hlt
        cases h
        refine ⟨6 + byteAt p (b + 4) + byteAt p (b + 5 + byteAt p (b + 4)), ?_, by omega, rfl,
          fun t ht ↦ ht, fun t ht ↦ ?_⟩
        · rw [width, if_neg (by omega), if_neg (by omega), if_pos hop22, if_pos (by omega)]
        · rw [htarget] at ht
          cases ht
      · cases h
    · rename_i hlen hop22
      cases h
      refine ⟨5 + byteAt p (b + 4), ?_, by omega, rfl, fun t ht ↦ ht, fun t ht ↦ ?_⟩
      · rw [width, if_neg (by omega), if_pos (by omega), if_pos (by omega)]
      · rw [htarget] at ht
        cases ht
  · rename_i hop
    split at h
    · rename_i k hk
      rw [lookup_fixed] at hk
      have hw := width_of_fixed hb rfl hk
      split at h
      · rename_i hjump
        split at h
        · cases h
        cases h
        rw [if_pos (by omega)] at hw
        refine ⟨1 + k, hw, by omega, rfl, fun t ht ↦ mem_cons_of_mem _ ht, fun t ht ↦ ?_⟩
        rw [target] at ht
        split at ht
        · rw [jumpOffset, if_neg (by omega)]
          cases ht
          exact mem_cons_self ..
        split at ht
        · rename_i h11
          rw [jumpOffset, if_pos h11]
          cases ht
          exact mem_cons_self ..
        · cases ht
      · rename_i hjump
        cases h
        rw [if_pos (by omega)] at hw
        refine ⟨1 + k, hw, by omega, rfl, fun t ht ↦ ht, fun t ht ↦ ?_⟩
        have hno : target p b = none := by
          simp only [mem_cons, not_mem_nil, or_false, not_or] at hjump
          rw [target, if_neg (by omega), if_neg (by omega)]
        rw [hno] at ht
        cases ht
    · cases h

/-- The instruction at `b` is recorded in `scan` together with the one after it and the position it
jumps to. -/
def Recorded (p : Bytes) (scan : Scan) (b : Nat) : Prop :=
  ∃ w, width p b = some w ∧ (b + w < p.length → b + w ∈ scan.boundaries) ∧
    ∀ t, target p b = some t → t ∈ scan.jumps

/-- **What a completed sweep has seen.**  Everything it recorded from `pc` on is the start of an
instruction, and each start is recorded with its successors. -/
theorem sweep_spec : ∀ (n pc : Nat) (acc : Scan), p.length - pc = n →
    (pc < p.length → InstructionStart p pc) → sweep p file pc acc = .ok scan →
    (∀ t ∈ acc.jumps, t ∈ scan.jumps) ∧ (pc < p.length → pc ∈ scan.boundaries) ∧
      (∀ b ∈ acc.boundaries, b ∈ scan.boundaries) ∧
      ∀ b ∈ scan.boundaries, b ∈ acc.boundaries ∨ (InstructionStart p b ∧ Recorded p scan b) := by
  intro n
  induction n using Nat.strongRecOn with
  | _ n ih =>
    intro pc acc hn hstart h
    rw [sweep] at h
    split at h
    · cases h
      exact ⟨fun t ht ↦ ht, fun hlt ↦ by omega, fun b hb ↦ hb, fun b hb ↦ .inl hb⟩
    rename_i hlt
    split at h
    · cases h
    · cases h
    rename_i next scan' hadv
    split at h
    · cases h
    rename_i hnext
    obtain ⟨w, hw, rfl, hbound, hjumps, htarget⟩ :=
      advance_spec (by omega) hadv (by omega)
    have hpos := advance_lt hadv
    obtain ⟨hj, hb, hmono, hall⟩ := ih _ (by omega) (pc + w) scan' rfl
      (fun hlt' ↦ .next (hstart (by omega)) hw hlt') h
    have hpc : pc ∈ scan.boundaries := hmono pc (by rw [hbound]; exact mem_cons_self ..)
    refine ⟨fun t ht ↦ hj t (hjumps t ht), fun _ ↦ hpc, fun b hb ↦ ?_, fun b hb ↦ ?_⟩
    · exact hmono b (by rw [hbound]; exact mem_cons_of_mem _ hb)
    rcases hall b hb with hold | hnew
    · rw [hbound] at hold
      rcases mem_cons.mp hold with rfl | hold
      · exact .inr ⟨hstart (by omega), w, hw, ‹_›, fun t ht ↦ hj t (htarget t ht)⟩
      · exact .inl hold
    · exact .inr hnew

theorem check_spec (h : check p file = .ok scan) :
    sweep p file 0 {} = .ok scan ∧ ∀ t ∈ scan.jumps, t ∈ scan.boundaries := by
  rw [check] at h
  cases hs : sweep p file 0 {} with
  | error e =>
    rw [hs] at h
    cases h
  | ok s =>
    rw [hs] at h
    change (match s.jumps.reverse.find? fun t ↦ t ∉ s.boundaries with
      | some t => Except.error ("invalid jump " ++ toString t ++ ": " ++ file)
      | none => Except.ok s) = Except.ok scan at h
    split at h
    · cases h
    rename_i hnone
    cases h
    refine ⟨rfl, fun t ht ↦ ?_⟩
    have := find?_eq_none.mp hnone t (mem_reverse.mpr ht)
    simpa using this

/-! ## On an accepted program the VM stays at instruction boundaries -/

/-- The positions of the linear decoding: the starts of instructions, and the end. -/
def AtBoundary (p : Bytes) (t : Nat) : Prop := InstructionStart p t ∨ t = p.length

/-- The instruction at the start of an accepted program's instruction is all there, and jumps to
the start of another. -/
theorem Accepts.start (h : Accepts p) (hb : InstructionStart p b) :
    ∃ w, width p b = some w ∧ ∀ t, target p b = some t → InstructionStart p t := by
  obtain ⟨file, scan, hc⟩ := h
  obtain ⟨hs, hjumps⟩ := check_spec hc
  obtain ⟨-, hzero, -, hall⟩ := sweep_spec _ 0 {} rfl (fun hlt ↦ .first hlt) hs
  have hrec : ∀ c ∈ scan.boundaries, InstructionStart p c ∧ Recorded p scan c := fun c hc ↦
    (hall c hc).resolve_left nofun
  have hmem : b ∈ scan.boundaries := by
    induction hb with
    | first h => exact hzero h
    | next hb hw hlt ih =>
      obtain ⟨w', hw', hnext, -⟩ := (hrec _ ih).2
      rw [hw] at hw'
      cases hw'
      exact hnext hlt
  obtain ⟨w, hw, -, htarget⟩ := (hrec b hmem).2
  exact ⟨w, hw, fun t ht ↦ (hrec t (hjumps t (htarget t ht))).1⟩

/-- Execution cannot leave the boundaries of an accepted program. -/
theorem discipline_atBoundary (h : Accepts p) (hpos : 0 < p.length) :
    Discipline (fun q ↦ q = p) (fun q t ↦ q = p ∧ AtBoundary p t) where
  zero hq := ⟨hq, .inl (.first hpos)⟩
  le := by
    rintro q t ⟨rfl, hb | rfl⟩
    · exact Nat.le_of_lt hb.lt
    · exact Nat.le_refl _
  next := by
    rintro q b w ⟨rfl, hb | rfl⟩ hw
    · refine ⟨rfl, ?_⟩
      rcases Nat.lt_or_ge (b + w) q.length with hlt | hge
      · exact .inl (.next hb hw hlt)
      · exact .inr (Nat.le_antisymm (width_le hw) hge)
    · rw [width_eq_none_of_le (Nat.le_refl _)] at hw
      cases hw
  jump := by
    rintro q b t w ⟨rfl, hb | rfl⟩ hw ht hlt
    · obtain ⟨-, -, htarget⟩ := h.start hb
      exact ⟨rfl, .inl (htarget t ht)⟩
    · rw [width_eq_none_of_le (Nat.le_refl _)] at hw
      cases hw

/-- The calls that neither load nor reset. -/
def KeepsProgram (c : VmCall) : Prop := c = .run ∨ c = .stop

theorem trusted_keepsProgram (h : Accepts p) (hpos : 0 < p.length) :
    Trusted (fun q ↦ q = p) (fun q t ↦ q = p ∧ AtBoundary p t) KeepsProgram := by
  intro c hc vm hinv
  have hdone := c.performed vm
  generalize c.perform vm = vm' at hdone ⊢
  cases hdone with
  | refused => exact hinv
  | load | reset => rcases hc with hc | hc <;> cases hc
  | run =>
    exact ⟨⟨hinv.length_le, Nat.zero_le _, Nat.zero_le _, hinv.admitted, nofun⟩,
      fun _ ↦ (discipline_atBoundary h hpos).zero hinv.admitted⟩
  | stop => exact ⟨⟨hinv.length_le, hinv.pc_le, hinv.depth_le, hinv.admitted, hinv.stack⟩, nofun⟩

theorem perform_eq_of_fault {c : VmCall} {vm : NoobVm} (h : (c.perform vm).state = .fault) :
    c.perform vm = vm := by
  have hdone := c.performed vm
  generalize c.perform vm = vm' at hdone h ⊢
  cases hdone with
  | refused => rfl
  | load | run | stop | reset => cases h

/-- The faults an accepted program can still run into. -/
def FaultOk (vm : NoobVm) : Prop :=
  Blameless vm.faultMessage ∨
    (vm.faultMessage = "truncated instruction" ∧ vm.pc = vm.programLength)

variable {W : Type}

/-- The invariant of a history of an accepted program. -/
structure Kept (p : Bytes) (m : Machine W) : Prop where
  /-- The VM holds the program and keeps to its boundaries. -/
  inv : VmInv (fun q ↦ q = p) (fun q t ↦ q = p ∧ AtBoundary p t) m.vm
  log : ∀ a ∈ m.log, a.InBounds
  /-- A fault is one of those that remain. -/
  fault : m.vm.state = .fault → FaultOk m.vm

variable {m : Machine W}

theorem Kept.length (h : Kept p m) : m.vm.programLength = p.length := by
  rw [← loaded_length h.inv.length_le, h.inv.admitted]

/-- An instruction faults for want of bytes only at the end of an accepted program. -/
theorem Accepts.at_end (h : Accepts p) (hb : AtBoundary p b) (hw : width p b = none) :
    b = p.length := by
  rcases hb with hb | rfl
  · obtain ⟨w, hw', -⟩ := h.start hb
    rw [hw] at hw'
    cases hw'
  · rfl

theorem Accepts.cause (h : Accepts p) (hb : AtBoundary p b) {pc : Nat} {message : String}
    (hc : Cause p b pc message) :
    Blameless message ∨ (message = "truncated instruction" ∧ b = p.length ∧ b ≤ pc) := by
  cases hc with
  | truncated hw hpc => exact .inr ⟨rfl, h.at_end hb hw, hpc⟩
  | unknown op hw hlt => exact absurd (h.at_end hb hw) (Nat.ne_of_lt hlt)
  | outside t ht hle w hw =>
    rcases hb with hb | rfl
    · obtain ⟨-, -, htarget⟩ := h.start hb
      exact absurd (htarget t ht).lt (by omega)
    · rw [width_eq_none_of_le (Nat.le_refl _)] at hw
      cases hw
  | other hbl => exact .inl hbl

variable {natives : VmNatives W}

theorem Kept.executeOne (hp : Accepts p)
    (hpos : 0 < p.length) (hn : Confined KeepsProgram natives) (now : Nat) (h : Kept p m)
    (hrun : m.vm.state = .running) :
    Kept p (m.step natives now) ∧ ((m.step natives now).vm.state = .fault →
      (m.step natives now).vm.faultMessage = "truncated instruction" →
      m.vm.pc = m.vm.programLength) := by
  have hbusy : m.vm.busy = true := by rw [NoobVm.busy, hrun]; rfl
  have hb : AtBoundary p m.vm.pc := (h.inv.at_target hbusy).2
  have hwp := executeOne_wp (discipline_atBoundary hp hpos) (trusted_keepsProgram hp hpos) hn now
    h.inv h.log hrun
  rw [h.inv.admitted] at hwp
  refine Proc.Wp.final (R := fun m' ↦ Kept p m' ∧ (m'.vm.state = .fault →
    m'.vm.faultMessage = "truncated instruction" → m.vm.pc = m.vm.programLength))
    (hwp.mono (fun _ m' hd ↦ ?_) fun m' hf ↦ ?_)
  · exact ⟨⟨hd.inv, hd.log, fun hfault ↦ absurd hfault hd.noFault⟩,
      fun hfault ↦ absurd hfault hd.noFault⟩
  have hlen : m'.vm.programLength = p.length := by
    rw [← loaded_length hf.frame.length_le, hf.frame.admitted]
  have hcause := hp.cause hb hf.cause
  refine ⟨⟨⟨hf.frame, fun hbusy' ↦ ?_⟩, hf.log, fun _ ↦ ?_⟩, fun _ hmsg ↦ ?_⟩
  · rw [NoobVm.busy, hf.fault] at hbusy'
    cases hbusy'
  · rcases hcause with hbl | ⟨hmsg, hend, hpc⟩
    · exact .inl hbl
    · have := hf.frame.pc_le
      exact .inr ⟨hmsg, by omega⟩
  · rcases hcause with hbl | ⟨-, hend, -⟩
    · exact absurd hmsg hbl.1
    · rw [hend, h.length]

theorem kept_of_load {vm vm' : NoobVm} (world : W) (h : vm.load p = .ok vm') :
    Kept p ⟨vm', world, []⟩ := by
  obtain ⟨hloaded, hpos, hle, hlen, hdepth, hpc, hstate⟩ := NoobVm.load_spec h
  refine ⟨⟨⟨?_, ?_, ?_, hloaded, ?_⟩, ?_⟩, nofun, ?_⟩
  · show vm'.programLength ≤ 1024
    omega
  · show vm'.pc ≤ vm'.programLength
    omega
  · show vm'.stackDepth ≤ 8
    omega
  · intro i hi
    have hi' : i < vm'.stackDepth := hi
    omega
  · intro hbusy
    rw [NoobVm.busy, hstate] at hbusy
    cases hbusy
  intro hfault
  have hfault' : vm'.state = .fault := hfault
  rw [hstate] at hfault'
  cases hfault'

theorem Kept.runOps (hp : Accepts p) (hpos : 0 < p.length)
    (hn : Confined KeepsProgram natives) (h : Kept p m) {ops : List VmOp}
    (hops : ∀ c, .call c ∈ ops → KeepsProgram c) : Kept p (m.runOps natives ops) := by
  refine Machine.runOps_induction (P := KeepsProgram) (fun c m hc hm ↦ ?_) (fun m hm hwait ↦ ?_)
    (fun now m hm hrun ↦ (hm.executeOne hp hpos hn now hrun).1) h hops
  · refine ⟨trusted_keepsProgram hp hpos c hc m.vm hm.inv, hm.log, fun hfault ↦ ?_⟩
    have hsame : c.perform m.vm = m.vm := perform_eq_of_fault hfault
    have hfault' : (c.perform m.vm).state = .fault := hfault
    rw [hsame] at hfault'
    show FaultOk (c.perform m.vm)
    rw [hsame]
    exact hm.fault hfault'
  · exact ⟨⟨⟨hm.inv.length_le, hm.inv.pc_le, hm.inv.depth_le, hm.inv.admitted, hm.inv.stack⟩,
      fun _ ↦ hm.inv.at_target (by rw [NoobVm.busy, hwait]; rfl)⟩, hm.log, nofun⟩

/-- **The catalogue's check is sound.**  Load a program it accepts, and then run, stop and tick the
VM in any order, with any clock and any native functions that do not load or reset it.  While the VM
is running or waiting it stands at the start of an instruction or at the end of the program; it
never faults on an unknown opcode or a jump outside the program, and it faults on a truncated
instruction only from the end. -/
theorem check_sound {natives : VmNatives W} (hn : Confined KeepsProgram natives)
    (hp : Accepts p) {vm vm' : NoobVm} (hload : vm.load p = .ok vm') (world : W) (ops : List VmOp)
    (hops : ∀ c, .call c ∈ ops → KeepsProgram c) :
    let m := Machine.runOps natives ops ⟨vm', world, []⟩
    (m.vm.state = .running ∨ m.vm.state = .waiting →
      InstructionStart p m.vm.pc ∨ m.vm.pc = m.vm.programLength) ∧
    (m.vm.state = .fault →
      (∀ op : Nat, m.vm.faultMessage ≠ "unknown opcode " ++ toString op) ∧
      m.vm.faultMessage ≠ "jump outside program" ∧
      (m.vm.faultMessage = "truncated instruction" → m.vm.pc = m.vm.programLength)) ∧
    ∀ now, m.vm.state = .running → (m.step natives now).vm.state = .fault →
      (m.step natives now).vm.faultMessage = "truncated instruction" →
      m.vm.pc = m.vm.programLength := by
  intro m
  have hpos := (NoobVm.load_spec hload).2.1
  have hk : Kept p m := (kept_of_load world hload).runOps hp hpos hn hops
  refine ⟨fun hstate ↦ ?_, fun hfault ↦ ?_, fun now hrun ↦ (hk.executeOne hp hpos hn now hrun).2⟩
  · have hbusy : m.vm.busy = true := by
      rw [NoobVm.busy, Bool.or_eq_true, decide_eq_true_iff, decide_eq_true_iff]
      exact hstate
    rcases (hk.inv.at_target hbusy).2 with hb | hb
    · exact .inl hb
    · exact .inr (hb.trans hk.length.symm)
  · rcases hk.fault hfault with ⟨h1, h2, h3⟩ | ⟨hmsg, hpc⟩
    · exact ⟨h3, h2, fun h ↦ absurd h h1⟩
    refine ⟨fun op hop ↦ ?_, fun hjump ↦ ?_, fun _ ↦ hpc⟩
    · have hhead := congrArg (fun s : String ↦ s.toList.head?) (hmsg.symm.trans hop)
      simp only [String.toList_append] at hhead
      cases hhead
    · exact absurd (hmsg.symm.trans hjump) (by decide)

/-- The waiting loop of the VM's documentation: set a register, wait a second, and again. -/
def waitingLoop : Bytes :=
  [0x01, 0x00, 0x2a, 0x00, 0x00, 0x00, 0x21, 0xe8, 0x03, 0x10, 0x06, 0x00]

theorem accepts_waitingLoop : Accepts waitingLoop := by
  have h0 : advance waitingLoop "vm" 0 {} = .ok (some 6, ⟨[0], [], []⟩) := rfl
  have h6 : advance waitingLoop "vm" 6 ⟨[0], [], []⟩ = .ok (some 9, ⟨[6, 0], [], []⟩) := rfl
  have h9 : advance waitingLoop "vm" 9 ⟨[6, 0], [], []⟩ = .ok (some 12, ⟨[9, 6, 0], [6], []⟩) := rfl
  have hs : sweep waitingLoop "vm" 0 {} = .ok ⟨[9, 6, 0], [6], []⟩ := by
    rw [sweep_of_advance (by decide) h0 (by decide), sweep_of_advance (by decide) h6 (by decide),
      sweep_of_advance (by decide) h9 (by decide), sweep, if_pos (by decide)]
  refine ⟨"vm", ⟨[9, 6, 0], [6], []⟩, ?_⟩
  rw [check, hs]
  rfl

/-- Loading and running it meets every hypothesis of `check_sound`. -/
theorem check_sound_waitingLoop :
    ∃ vm', ({} : NoobVm).load waitingLoop = .ok vm' ∧
      let m := Machine.runOps (W := Unit) ⟨[]⟩ [.call .run, .tick 32 0 0] ⟨vm', (), []⟩
      (m.vm.state = .running ∨ m.vm.state = .waiting →
        InstructionStart waitingLoop m.vm.pc ∨ m.vm.pc = m.vm.programLength) := by
  obtain ⟨vm', hload⟩ : ∃ vm', ({} : NoobVm).load waitingLoop = .ok vm' := ⟨_, rfl⟩
  refine ⟨vm', hload, (check_sound ?_ accepts_waitingLoop hload () _ ?_).1⟩
  · exact nofun
  intro c hc
  simp only [mem_cons, VmOp.call.injEq, reduceCtorEq, not_mem_nil, or_false] at hc
  exact .inl hc

end Noobia.Catalog
