import Noobia.Store.Atomic
import Noobia.Vm.Machine

/-!
# The boot snapshot

A VM that was running when the power failed runs again after the next boot.  The program store keeps
two files for that: the program last started, and a flag that says whether to run it.  The VM's
lifecycle hooks write them (`onStarted`, `onStopped`, `onReset`, and `clearLast` for the command
`VM_LAST_CLEAR`), and the boot recovers and reads them (`begin`, `restoreLast`).

Above the files there is a `Snapshot`, the program and the flag, and an `Event` turns one into
another (`Event.apply`).  `Event.left` lists the snapshots a power cut in the middle of the event
can leave behind; `Event.perform_safe` shows that the files keep to that list.  What remains to be
said about boots is then said about snapshots.

The hooks are modelled from the end of `begin` on, when `programVm` is set.
-/

namespace Noobia

open List

/-- What a lifecycle hook reports. -/
structure Report where
  /-- The detail appended to the reply of the command. -/
  detail : String
  /-- `persistenceStatus`. -/
  status : String

/-- What a boot comes to. -/
structure Restored where
  /-- The result of `restoreLast`. -/
  result : NativeResult
  /-- `persistenceStatus`. -/
  status : String
  vm : NoobVm

/-- The program the VM is running after a boot, if it is running. -/
def Restored.running (restored : Restored) : Option Bytes :=
  if restored.vm.state = .running then some restored.vm.loaded else none

namespace ProgramStore

open Crash

variable (directory : Bytes)

def lastProgramPath : Bytes := directory ++ Bytes.ofAscii "/runtime_last.nvm"

def lastRunPath : Bytes := directory ++ Bytes.ofAscii "/runtime_last.run"

/-- The contents of the flag file. -/
def flag (enabled : Bool) : Bytes := [if enabled then 49 else 48]

def writeRunFlag (enabled : Bool) : CardIo (Except String Unit) :=
  atomicWrite (lastRunPath directory) (flag enabled)

def readRunFlag : CardIo Bool :=
  look fun d ↦ decide ((d (lastRunPath directory)).bind List.head? = some 49)

/-- `writeCurrentProgram`, for the program the VM holds. -/
def writeCurrentProgram (program : Bytes) : CardIo (Except String Unit) :=
  if program.length = 0 then pure (.error "VM has no program")
  else atomicWrite (lastProgramPath directory) program

def removeRuntimeFiles : CardIo Unit := do
  let _ ← CardIo.remove (lastProgramPath directory)
  let _ ← CardIo.remove (temporary (lastProgramPath directory))
  let _ ← CardIo.remove (backup (lastProgramPath directory))
  let _ ← CardIo.remove (lastRunPath directory)
  let _ ← CardIo.remove (temporary (lastRunPath directory))
  let _ ← CardIo.remove (backup (lastRunPath directory))
  pure ()

/-- The failing branch of `onStarted`. -/
def startFailed (error : String) : CardIo Report := do
  let _ ← writeRunFlag directory false
  pure ⟨"persistence=failed", "error:" ++ error⟩

/-- `onStarted`.  The previous snapshot is disabled before it is replaced. -/
def onStarted (program : Bytes) : CardIo Report := do
  match ← writeRunFlag directory false with
  | .error error => startFailed directory error
  | .ok _ =>
  match ← writeCurrentProgram directory program with
  | .error error => startFailed directory error
  | .ok _ =>
  match ← writeRunFlag directory true with
  | .error error => startFailed directory error
  | .ok _ => pure ⟨"persistence=stored autorun=1", "stored:autorun"⟩

def onStopped : CardIo Report := do
  match ← writeRunFlag directory false with
  | .error error => pure ⟨"persistence=failed", "error:" ++ error⟩
  | .ok _ => pure ⟨"persistence=stored autorun=0", "stored:stopped"⟩

def onReset : CardIo Report := do
  removeRuntimeFiles directory
  pure ⟨"persistence=cleared", "cleared"⟩

/-- `clearLast`, with the new `persistenceStatus` if there is one. -/
def clearLast (arguments : List Int) : CardIo (NativeResult × Option String) :=
  if arguments ≠ [] then pure (.fail "usage: no arguments", none) else do
  removeRuntimeFiles directory
  pure (⟨true, 1, "runtime snapshot cleared", .empty⟩, some "cleared")

/-- `begin`, on a card that has the directory. -/
def begin : CardIo Unit := do
  recoverFile (lastProgramPath directory)
  recoverFile (lastRunPath directory)

/-- The failing branches of `restoreLast` turn the flag off. -/
def restoreFailed (result : NativeResult) (status : String) (vm : NoobVm) : CardIo Restored := do
  let _ ← writeRunFlag directory false
  pure ⟨result, status, vm⟩

/-- `restoreLast`.  Reading a file that could be opened does not fail. -/
def restoreLast (vm : NoobVm) : CardIo Restored := do
  match ← look fun d ↦ d (lastProgramPath directory) with
  | none => pure ⟨⟨true, 0, "restored=none autorun=0", .empty⟩, "ready:none", vm⟩
  | some bytes =>
  if bytes.length = 0 ∨ NoobVm.programBytes < bytes.length then
    restoreFailed directory ⟨false, bytes.length, "invalid runtime program size", .empty⟩
      "error:invalid runtime program" vm else
  match vm.load bytes with
  | .error error => restoreFailed directory (.fail error) ("error:" ++ error) vm
  | .ok vm => do
  let autorun ← readRunFlag directory
  if autorun = false then
    pure ⟨⟨true, bytes.length,
      "restored=" ++ (lastProgramPath directory).render ++ " autorun=0", .empty⟩,
      "restored:ready", vm⟩ else
  match vm.run with
  | .error error =>
    restoreFailed directory ⟨false, bytes.length, error, .empty⟩ ("error:" ++ error) vm
  | .ok vm =>
    pure ⟨⟨true, bytes.length,
      "restored=" ++ (lastProgramPath directory).render ++ " autorun=1", .empty⟩,
      "restored:autorun", vm⟩

/-- A boot: `begin`, then `restoreLast` on a new VM. -/
def boot : CardIo Restored := do
  begin directory
  restoreLast directory {}

/-- The program a boot runs, if it runs one. -/
def autorun (d : Card) : Option Bytes := (boot directory ⟨d, none⟩).1.bind Restored.running

end ProgramStore

/-! ## Snapshots -/

/-- A program a VM can hold. -/
abbrev Program := { bytes : Bytes // 0 < bytes.length ∧ bytes.length ≤ 1024 }

/-- What the two files hold. -/
structure Snapshot where
  /-- The program, if the file exists. -/
  program : Option Program
  /-- The flag, if the file exists. -/
  run : Option Bool

/-- The program a snapshot makes the next boot run. -/
def Snapshot.autorun (s : Snapshot) : Option Program :=
  if s.run = some true then s.program else none

/-- What happens to the store. -/
inductive Event
  /-- A VM was started with this program. -/
  | started (program : Program)
  | stopped
  | reset
  /-- `VM_LAST_CLEAR`. -/
  | cleared
  /-- The device was switched off and on again. -/
  | rebooted

namespace Event

/-- The snapshot after an event. -/
def apply (s : Snapshot) : Event → Snapshot
  | started program => ⟨some program, some true⟩
  | stopped => { s with run := some false }
  | reset | cleared => ⟨none, none⟩
  | rebooted => s

/-- The snapshots a power cut during an event can leave. -/
def left (s : Snapshot) : Event → List Snapshot
  | started program =>
    [s, { s with run := some false }, ⟨some program, some false⟩, ⟨some program, some true⟩]
  | stopped => [s, { s with run := some false }]
  | reset | cleared => [s, { s with program := none }, ⟨none, none⟩]
  | rebooted => [s]

/-- What an event does to the program started last: a start replaces it, and a stop, a reset or a
clear forgets it. -/
def since (last : Option Program) : Event → Option Program
  | started program => some program
  | stopped | reset | cleared => none
  | rebooted => last

/-- The program of the last start that no stop, reset or clear has come after. -/
def lastStart (events : List Event) : Option Program := events.foldl since none

/-- An event, on the card. -/
def perform (directory : Bytes) : Event → CardIo Unit
  | started program => do
    let _ ← ProgramStore.onStarted directory program.val
    pure ()
  | stopped => do
    let _ ← ProgramStore.onStopped directory
    pure ()
  | reset => do
    let _ ← ProgramStore.onReset directory
    pure ()
  | cleared => do
    let _ ← ProgramStore.clearLast directory []
    pure ()
  | rebooted => do
    let _ ← ProgramStore.boot directory
    pure ()

end Event

/-! ## The files of a snapshot -/

section Files

open Crash ProgramStore

variable {directory : Bytes}

/-- After a crash, and before recovery, the files hold a snapshot. -/
structure Holds (directory : Bytes) (s : Snapshot) (d : Card) : Prop where
  program : recovered d (lastProgramPath directory) = s.program.map Subtype.val
  run : recovered d (lastRunPath directory) = s.run.map flag

/-- Between events, the files hold a snapshot and there are no others. -/
structure Ready (directory : Bytes) (s : Snapshot) (d : Card) : Prop
    extends Holds directory s d where
  cleanProgram : Clean d (lastProgramPath directory)
  cleanRun : Clean d (lastRunPath directory)

theorem apart_program_run : Apart (lastProgramPath directory) (lastRunPath directory) :=
  Apart.append directory (by unfold Apart; decide)

variable {s s' : Snapshot} {d d' : Card}

theorem Holds.of_run (h : Holds directory s d) (hsame : SameBut (lastRunPath directory) d d')
    {run : Option Bool} (hrun : recovered d' (lastRunPath directory) = run.map flag) :
    Holds directory { s with run := run } d' :=
  ⟨(hsame.recovered apart_program_run.symm).trans h.program, hrun⟩

theorem Holds.of_program (h : Holds directory s d)
    (hsame : SameBut (lastProgramPath directory) d d')
    {program : Option Program}
    (hprogram : recovered d' (lastProgramPath directory) = program.map Subtype.val) :
    Holds directory { s with program := program } d' :=
  ⟨hprogram, (hsame.recovered apart_program_run).trans h.run⟩

theorem writeRunFlag_safe (h : Ready directory s d) (enabled : Bool) :
    Safe (writeRunFlag directory enabled)
      (fun d' ↦ Holds directory s d' ∨ Holds directory { s with run := some enabled } d')
      (fun r d' ↦ r = .ok () ∧ Ready directory { s with run := some enabled } d') d := by
  refine (atomicWrite_safe h.cleanRun (flag enabled)).mono (fun d' hd ↦ ?_) fun r d' hd ↦ ?_
  · rcases hd with ⟨hold | hnew, hsame⟩
    · exact .inl (h.of_run hsame (hold.trans (h.cleanRun.recovered.symm.trans h.run)))
    · exact .inr (h.of_run hsame hnew)
  · obtain ⟨hr, hnew, hclean, hsame⟩ := hd
    exact ⟨hr, h.of_run hsame (hclean.recovered.trans hnew),
      hsame.clean apart_program_run.symm h.cleanProgram, hclean⟩

theorem writeCurrentProgram_safe (h : Ready directory s d) (program : Program) :
    Safe (writeCurrentProgram directory program.val)
      (fun d' ↦ Holds directory s d' ∨ Holds directory { s with program := some program } d')
      (fun r d' ↦ r = .ok () ∧ Ready directory { s with program := some program } d') d := by
  rw [writeCurrentProgram, if_neg (by have := program.property; omega)]
  refine (atomicWrite_safe h.cleanProgram program.val).mono (fun d' hd ↦ ?_) fun r d' hd ↦ ?_
  · rcases hd with ⟨hold | hnew, hsame⟩
    · exact .inl (h.of_program hsame (hold.trans (h.cleanProgram.recovered.symm.trans h.program)))
    · exact .inr (h.of_program hsame hnew)
  · obtain ⟨hr, hnew, hclean, hsame⟩ := hd
    exact ⟨hr, h.of_program hsame (hclean.recovered.trans hnew), hclean,
      hsame.clean apart_program_run h.cleanRun⟩

theorem removeRuntimeFiles_safe (h : Ready directory s d) :
    Safe (removeRuntimeFiles directory)
      (fun d' ↦ Holds directory s d' ∨ Holds directory { s with program := none } d' ∨
        Holds directory ⟨none, none⟩ d')
      (fun _ d' ↦ Ready directory ⟨none, none⟩ d') d := by
  have hprogram : Shows d (lastProgramPath directory) (d (lastProgramPath directory)) none none d :=
    ⟨rfl, h.cleanProgram.temporary, h.cleanProgram.backup, fun _ _ _ _ ↦ rfl⟩
  have hgone {d₁ : Card} (h₁ : Shows d (lastProgramPath directory) none none none d₁) :
      Holds directory { s with program := none } d₁ := h.of_program h₁.rest h₁.recovered
  refine hprogram.removeAll (.inl h.toHolds) (fun d₁ h₁ ↦ .inr (.inl (hgone h₁))) fun d₁ h₁ ↦ ?_
  have hclean := h₁.rest.clean apart_program_run h.cleanRun
  have hrun : Shows d₁ (lastRunPath directory) (d₁ (lastRunPath directory)) none none d₁ :=
    ⟨rfl, hclean.temporary, hclean.backup, fun _ _ _ _ ↦ rfl⟩
  have hnone {d₂ : Card} (h₂ : Shows d₁ (lastRunPath directory) none none none d₂) :
      Holds directory ⟨none, none⟩ d₂ := (hgone h₁).of_run h₂.rest h₂.recovered
  refine hrun.removeAll (.inr (.inl (hgone h₁))) (fun d₂ h₂ ↦ .inr (.inr (hnone h₂)))
    fun d₂ h₂ ↦ safe_pure ?_
  exact ⟨hnone h₂, h₂.rest.clean apart_program_run.symm h₁.clean, h₂.clean⟩

/-- Recovering both files, with any number of attempts before. -/
theorem begin_safe (h : Holds directory s d) :
    Safe (begin directory) (Holds directory s) (fun _ d' ↦ Ready directory s d') d := by
  refine safe_bind ((recoverFile_safe (lastProgramPath directory) d).mono (fun d' hd ↦ ?_)
    fun _ d₁ hd₁ ↦ ?_)
  · exact h.of_program hd.2 (hd.1.trans h.program)
  obtain ⟨hmain, hclean, hsame⟩ := hd₁
  have h₁ : Holds directory s d₁ :=
    h.of_program hsame (hclean.recovered.trans (hmain.trans h.program))
  refine (recoverFile_safe (lastRunPath directory) d₁).mono (fun d' hd ↦ ?_) fun _ d₂ hd₂ ↦ ?_
  · exact h₁.of_run hd.2 (hd.1.trans h₁.run)
  obtain ⟨hmain₂, hclean₂, hsame₂⟩ := hd₂
  exact ⟨h₁.of_run hsame₂ (hclean₂.recovered.trans (hmain₂.trans h₁.run)),
    hsame₂.clean apart_program_run.symm hclean, hclean₂⟩

theorem readRunFlag_eq (h : Ready directory s d) :
    decide ((d (lastRunPath directory)).bind List.head? = some 49) =
      decide (s.run = some true) := by
  rw [← h.cleanRun.recovered, h.run]
  cases s.run with
  | none => rfl
  | some enabled => cases enabled <;> rfl

/-- `restoreLast` on a new VM runs what the snapshot says, and writes nothing. -/
theorem restoreLast_safe (h : Ready directory s d) :
    Safe (restoreLast directory {}) (Holds directory s)
      (fun r d' ↦ r.running = s.autorun.map Subtype.val ∧ Ready directory s d') d := by
  refine safe_look_bind ?_
  rw [← h.cleanProgram.recovered, h.program]
  cases hprogram : s.program with
  | none =>
    refine safe_pure ⟨?_, h⟩
    simp [Restored.running, Snapshot.autorun, hprogram]
  | some program =>
    obtain ⟨vm, hload⟩ := NoobVm.load_ok {} rfl program.property.1 program.property.2
    obtain ⟨hloaded, hpos, hle, hlength, -, -, hstate⟩ := NoobVm.load_spec hload
    simp only [Option.map_some]
    rw [if_neg (by rw [NoobVm.programBytes]; omega)]
    simp only [hload]
    refine safe_look_bind ?_
    rw [readRunFlag_eq h]
    by_cases hrun : s.run = some true
    · simp only [hrun, decide_true, Bool.true_eq_false, if_false,
        NoobVm.run_of_ready hstate (by omega : vm.programLength ≠ 0)]
      refine safe_pure ⟨?_, h⟩
      simp [Restored.running, Snapshot.autorun, hrun, hprogram, ← hloaded, NoobVm.loaded]
    · simp only [hrun, decide_false, if_true]
      refine safe_pure ⟨?_, h⟩
      simp [Restored.running, Snapshot.autorun, hrun, hstate]

theorem boot_safe (h : Holds directory s d) :
    Safe (boot directory) (Holds directory s)
      (fun r d' ↦ r.running = s.autorun.map Subtype.val ∧ Ready directory s d') d :=
  safe_bind ((begin_safe h).mono (fun _ ↦ id) fun _ _ h' ↦ restoreLast_safe h')

/-- **What a boot runs is a matter of the snapshot.** -/
theorem autorun_eq (h : Holds directory s d) : autorun directory d = s.autorun.map Subtype.val := by
  obtain ⟨r, d', hboot, hr, -⟩ := (boot_safe h).ends
  rw [autorun, hboot, Option.bind_some, hr]

/-- However often the power fails while booting, the snapshot stays what it is. -/
theorem Holds.reboots (h : Holds directory s d) (cuts : List Nat) :
    Holds directory s (cuts.foldl (fun d cut ↦ ((boot directory).final ⟨d, some cut⟩).disk) d) := by
  induction cuts generalizing d with
  | nil => exact h
  | cons cut cuts ih =>
    exact ih (((boot_safe h).mono (fun _ ↦ id) fun _ _ h' ↦ h'.2.toHolds).final (some cut))

theorem onStarted_safe (h : Ready directory s d) (program : Program) :
    Safe (onStarted directory program.val)
      (fun d' ↦ ∃ s' ∈ (Event.started program).left s, Holds directory s' d')
      (fun _ d' ↦ Ready directory ((Event.started program).apply s) d') d := by
  have hleft {s₁ s₂ : Snapshot} {d' : Card} (h₁ : s₁ ∈ (Event.started program).left s)
      (h₂ : s₂ ∈ (Event.started program).left s)
      (hd : Holds directory s₁ d' ∨ Holds directory s₂ d') :
      ∃ s' ∈ (Event.started program).left s, Holds directory s' d' :=
    hd.elim (fun hd ↦ ⟨s₁, h₁, hd⟩) fun hd ↦ ⟨s₂, h₂, hd⟩
  simp only [Event.left] at hleft ⊢
  refine safe_bind ((writeRunFlag_safe h false).mono (fun _ ↦ hleft (by simp) (by simp))
    fun r d₁ hd₁ ↦ ?_)
  obtain ⟨rfl, h₁⟩ := hd₁
  refine safe_bind ((writeCurrentProgram_safe h₁ program).mono (fun _ ↦ hleft (by simp) (by simp))
    fun r d₂ hd₂ ↦ ?_)
  obtain ⟨rfl, h₂⟩ := hd₂
  refine safe_bind ((writeRunFlag_safe h₂ true).mono (fun _ ↦ hleft (by simp) (by simp))
    fun r d₃ hd₃ ↦ ?_)
  obtain ⟨rfl, h₃⟩ := hd₃
  exact safe_pure h₃

/-- **The files follow the events.**  An event takes the snapshot where it should; a power cut
leaves one of the snapshots listed for it. -/
theorem Event.perform_safe (h : Ready directory s d) (event : Event) :
    Safe (event.perform directory) (fun d' ↦ ∃ s' ∈ event.left s, Holds directory s' d')
      (fun _ d' ↦ Ready directory (event.apply s) d') d := by
  have hremove {d' : Card} (hd : Holds directory s d' ∨
      Holds directory { s with program := none } d' ∨ Holds directory ⟨none, none⟩ d') :
      ∃ s' ∈ Event.reset.left s, Holds directory s' d' := by
    simpa [Event.left] using hd
  cases event with
  | started program =>
    exact safe_bind ((onStarted_safe h program).mono (fun _ ↦ id) fun _ _ h' ↦ safe_pure h')
  | stopped =>
    refine safe_bind (safe_bind ((writeRunFlag_safe h false).mono (fun d' hd ↦ ?_)
      fun r d' hd ↦ ?_))
    · simpa [Event.left] using hd
    · obtain ⟨rfl, h'⟩ := hd
      exact safe_pure (safe_pure h')
  | reset | cleared =>
    exact safe_bind (safe_bind ((removeRuntimeFiles_safe h).mono (fun _ ↦ hremove)
      fun _ _ h' ↦ safe_pure (safe_pure h')))
  | rebooted =>
    refine safe_bind ((boot_safe h.toHolds).mono (fun d' hd ↦ ?_) fun _ _ h' ↦ safe_pure h'.2)
    simpa [Event.left] using hd

end Files

/-! ## Lives -/

/-- What has come of a sequence of events when the power fails, or at its end. -/
structure Life where
  /-- The events that ran to their end. -/
  completed : List Event
  /-- The event the power failed in, if it did. -/
  inFlight : Option Event
  /-- What is on the card. -/
  card : Card

/-- Events one after the other, for as long as there is power. -/
def live (directory : Bytes) : List Event → Powered Card → Life
  | [], p => ⟨[], none, p.disk⟩
  | event :: events, p =>
    match event.perform directory p with
    | (none, p') => ⟨[], some event, p'.disk⟩
    | (some _, p') =>
      let life := live directory events p'
      { life with completed := event :: life.completed }

/-- A card without the files of the snapshot; the others are as they may be. -/
def freshCard (directory : Bytes) (others : Card) : Card := fun path ↦
  if path ∈ [ProgramStore.lastProgramPath directory,
      temporary (ProgramStore.lastProgramPath directory),
      backup (ProgramStore.lastProgramPath directory), ProgramStore.lastRunPath directory,
      temporary (ProgramStore.lastRunPath directory),
      backup (ProgramStore.lastRunPath directory)] then
    none
  else others path

variable {directory : Bytes}

theorem ready_freshCard (others : Card) :
    Ready directory ⟨none, none⟩ (freshCard directory others) := by
  constructor
  · constructor <;> simp [recovered, freshCard]
  · constructor <;> simp [freshCard]
  · constructor <;> simp [freshCard]

/-- A whole life: the snapshot on the card is the one the completed events lead to, or one that the
event in flight can have left of it. -/
theorem live_spec (events : List Event) {s : Snapshot} {p : Powered Card}
    (h : Ready directory s p.disk) :
    match (live directory events p).inFlight with
    | none => Ready directory ((live directory events p).completed.foldl Event.apply s)
        (live directory events p).card
    | some event => ∃ s' ∈ event.left ((live directory events p).completed.foldl Event.apply s),
        Holds directory s' (live directory events p).card := by
  induction events generalizing s p with
  | nil => exact h
  | cons event events ih =>
    rcases (event.perform_safe h).leaves p.left with ⟨_, p', hp, h'⟩ | ⟨p', hp, h'⟩
    · simp only [live, hp]
      exact ih h'
    · simp only [live, hp]
      exact h'

theorem autorun_foldl (s : Snapshot) (events : List Event) :
    (events.foldl Event.apply s).autorun = events.foldl Event.since s.autorun := by
  induction events generalizing s with
  | nil => rfl
  | cons event events ih =>
    rw [foldl_cons, foldl_cons, ih]
    cases event <;> rfl

/-- A power cut leaves the program that was to run before, none, or the one being started. -/
theorem autorun_left {s s' : Snapshot} {event : Event} (h : s' ∈ event.left s) :
    s'.autorun = s.autorun ∨ s'.autorun = none ∨
      ∃ program, event = .started program ∧ s'.autorun = some program := by
  cases event with
  | started program =>
    simp only [Event.left, mem_cons, not_mem_nil, or_false] at h
    rcases h with rfl | rfl | rfl | rfl
    · exact .inl rfl
    · exact .inr (.inl rfl)
    · exact .inr (.inl rfl)
    · exact .inr (.inr ⟨program, rfl, rfl⟩)
  | stopped =>
    simp only [Event.left, mem_cons, not_mem_nil, or_false] at h
    rcases h with rfl | rfl
    · exact .inl rfl
    · exact .inr (.inl rfl)
  | reset | cleared =>
    simp only [Event.left, mem_cons, not_mem_nil, or_false] at h
    rcases h with rfl | rfl | rfl
    · exact .inl rfl
    · exact .inr (.inl (by simp [Snapshot.autorun]))
    · exact .inr (.inl rfl)
  | rebooted => exact .inl (by rw [mem_singleton.mp h])

theorem lastStart_of_getLast? {events : List Event} {program : Program}
    (h : events.getLast? = some (.started program)) : Event.lastStart events = some program := by
  obtain ⟨earlier, rfl⟩ := getLast?_eq_some_iff.mp h
  rw [Event.lastStart, foldl_append]
  rfl

/-- **The boot snapshot survives power cuts.**  A new card sees a history of events, during which
the power may fail after any number of file operations, and then boots that may fail in the same
way. The boot that succeeds runs a program only if that is the program of the last start completed
and not followed by a completed stop, reset or clear, or the program of the start the power failed
in.  If the last thing that happened was a start that completed, it does run that program. -/
theorem boot_runs_last_start (directory : Bytes) (others : Card) (history : List Event)
    (power : Option Nat) (cuts : List Nat) :
    let life := live directory history ⟨freshCard directory others, power⟩
    let card := cuts.foldl (fun d cut ↦ ((ProgramStore.boot directory).final ⟨d, some cut⟩).disk)
      life.card
    (∀ bytes, ProgramStore.autorun directory card = some bytes →
        ∃ program : Program, program.val = bytes ∧
          (Event.lastStart life.completed = some program ∨
            life.inFlight = some (.started program))) ∧
      (life.inFlight = none → ∀ program, life.completed.getLast? = some (.started program) →
        ProgramStore.autorun directory card = some program.val) := by
  intro life card
  have hlife := live_spec history (p := ⟨freshCard directory others, power⟩)
    (ready_freshCard others)
  have hlast : (life.completed.foldl Event.apply ⟨none, none⟩).autorun =
      Event.lastStart life.completed := autorun_foldl _ _
  cases hflight : life.inFlight with
  | none =>
    rw [show (live directory history _).inFlight = none from hflight] at hlife
    have hrun : ProgramStore.autorun directory card =
        (Event.lastStart life.completed).map Subtype.val := by
      rw [autorun_eq (hlife.toHolds.reboots cuts), hlast]
    refine ⟨fun bytes hbytes ↦ ?_, fun _ program hprogram ↦ ?_⟩
    · rw [hrun, Option.map_eq_some_iff] at hbytes
      obtain ⟨program, hprogram, hval⟩ := hbytes
      exact ⟨program, hval, .inl hprogram⟩
    · rw [hrun, lastStart_of_getLast? hprogram, Option.map_some]
  | some event =>
    rw [show (live directory history _).inFlight = some event from hflight] at hlife
    obtain ⟨s, hs, hholds⟩ := hlife
    refine ⟨fun bytes hbytes ↦ ?_, nofun⟩
    rw [autorun_eq (hholds.reboots cuts), Option.map_eq_some_iff] at hbytes
    obtain ⟨program, hprogram, hval⟩ := hbytes
    refine ⟨program, hval, ?_⟩
    rcases autorun_left hs with h | h | ⟨started, rfl, h⟩
    · exact .inl (by rw [← hlast, ← h, hprogram])
    · exact absurd (h.symm.trans hprogram) nofun
    · rw [h] at hprogram
      exact .inr (by rw [Option.some.inj hprogram])

/-- A program of one byte. -/
def halting : Program := ⟨[0], by decide⟩

/-- A stop and a start on a new card, and a boot that runs what was started. -/
theorem boot_runs_last_start_halting :
    ProgramStore.autorun []
      (live [] [.stopped, .started halting] ⟨freshCard [] fun _ ↦ none, none⟩).card = some [0] :=
  (boot_runs_last_start [] (fun _ ↦ none) [.stopped, .started halting] none []).2 rfl halting rfl

end Noobia
