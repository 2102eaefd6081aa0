import Noobia.Lib.Digits
import Noobia.Lib.Slots
import Noobia.Lib.Trace

/-!
# The lock of the lights

Programs that talk to the Hue bridge take turns by a file, `/tmp/rose-hue.lock`, which holds the
number of the process that has the lock.  `hue_lock_acquire` creates the file, or waits as long as
it is there; a file whose process is gone is removed first (`stale_lock`).  `hue_lock_release`
removes the file.

The model goes from system call to system call, with any number of processes.  A file has an
identity of its own, apart from the path it is linked at, and what is written to it and read from it
goes by that.  A process may die at any time, a write may stop short, and every other call may fail.

Looking at a file and removing it are different calls.  `two_hold_the_lock` is a run in which two
processes find the same file left behind; the second one removes the file that the first has created
in the meantime, and then both have the lock.  `lock_exclusive` says that this is the only way for
it to go wrong: if whatever is removed as stale, or after a write that failed, is the file that the
process has looked at, or created, then no two processes have the lock at the same time.
-/

open Bytes

namespace Noobia.Hue

open List CString

/-- Where a process is.  The file is the one it has created or opened, and `left` says how many of
the attempts are left, this one included. -/
inductive Phase
  /-- Not in `hue_lock_acquire`. -/
  | idle
  /-- About to `open` the path with `O_EXCL`. -/
  | opening (left : Nat)
  /-- It has created the file and is about to write its number. -/
  | writing (file : Nat)
  /-- The write has failed; it is about to `unlink` the path. -/
  | failing (file : Nat)
  /-- The number is written; it is about to `close` the file. -/
  | closing (file : Nat)
  /-- There is a file already; it is about to `fopen` it. -/
  | looking (left : Nat)
  /-- It has opened the file and is about to read it. -/
  | reading (file left : Nat)
  /-- It has read the owner and is about to `kill` it with signal 0. -/
  | probing (file : Nat) (owner : Int) (left : Nat)
  /-- The owner is gone; it is about to `unlink` the path. -/
  | removing (file left : Nat)
  /-- It is about to sleep. -/
  | pausing (left : Nat)
  deriving DecidableEq

structure Process where
  pid : Nat
  alive : Bool := true
  phase : Phase := .idle
  /-- `lock_owned`, and the file it was set for. -/
  owned : Option Nat := none
  deriving DecidableEq

/-- The files, and the processes that use them. -/
structure Machine where
  /-- What is in each of the files that have been created so far. -/
  files : List Bytes
  /-- The file at the path of the lock. -/
  lock : Option Nat
  processes : List Process
  deriving DecidableEq

namespace Machine

/-- A process goes on to its next phase. -/
def goto (m : Machine) (p : Nat) (phase : Phase) : Machine :=
  { m with processes := m.processes.modify p ({ · with phase }) }

def unlink (m : Machine) (ok : Bool) : Machine := if ok then { m with lock := none } else m

/-- What `hue_lock_acquire` does about a file that is not stale: it sleeps, unless this was the last
attempt. -/
def notStale (left : Nat) : Phase := if 1 < left then .pausing left else .opening (left - 1)

/-- The next system call of a process.  `ok` says whether the call does what it can, in the case of
`kill` whether it finds no such process, and `n` how many bytes are written. -/
def call (long : Nat) (m : Machine) (p : Nat) (me : Process) (ok : Bool) (n : Nat) : Machine :=
  match me.phase with
  | .idle => m
  | .opening left =>
    if left = 0 then m.goto p .idle
    else if m.lock.isSome then m.goto p (.looking left)
    else if ok then
      { m.goto p (.writing m.files.length) with
        files := m.files ++ [[]]
        lock := some m.files.length }
    else m.goto p .idle
  | .writing file =>
    let owner := Bytes.ofNat me.pid ++ [10]
    { m.goto p (if owner.length ≤ n then .closing file else .failing file) with
      files := m.files.modify file (· ++ owner.take n) }
  | .failing _ => (m.goto p .idle).unlink ok
  | .closing file =>
    { m with processes := m.processes.modify p ({ · with phase := .idle, owned := some file }) }
  | .looking left =>
    match m.lock with
    | some file => m.goto p (if ok then .reading file left else notStale left)
    | none => m.goto p (notStale left)
  | .reading file left =>
    let owner := (CString.strtoSigned long (m.files.getD file [])).1
    m.goto p (if 1 < owner then .probing file owner left else notStale left)
  | .probing file owner left =>
    -- It finds the processes of the model, as far as they are alive; there may be others.
    let found := m.processes.any fun q ↦ q.alive && ((q.pid : Int) = owner.bmod (2 ^ 32))
    m.goto p (if !found && ok then .removing file left else notStale left)
  | .removing _ left => (m.goto p (.opening (left - 1))).unlink ok
  | .pausing left => m.goto p (.opening (left - 1))

end Machine

/-- What happens next. -/
inductive LockAction
  /-- A process is started, under a number that no other has. -/
  | spawn (pid : Nat)
  /-- It calls `hue_lock_acquire`. -/
  | acquire (p timeout : Nat)
  /-- It makes its next system call. -/
  | advance (p : Nat) (ok : Bool) (n : Nat)
  /-- It calls `hue_lock_release`. -/
  | release (p : Nat) (ok : Bool)
  | die (p : Nat)

/-- A step of the machine. -/
def Machine.step (long : Nat) (m : Machine) : LockAction → Machine
  | .spawn pid =>
    if 0 < pid ∧ pid < 2 ^ 31 ∧ m.processes.all (fun q ↦ !(q.alive && q.pid = pid)) then
      { m with processes := m.processes ++ [{ pid }] }
    else m
  | .acquire p timeout =>
    match m.processes[p]? with
    | some me =>
      if me.alive ∧ me.phase = .idle then m.goto p (.opening ((timeout * 10 + 1) % 2 ^ 32)) else m
    | none => m
  | .advance p ok n =>
    match m.processes[p]? with
    | some me => if me.alive then m.call long p me ok n else m
    | none => m
  | .release p ok =>
    match m.processes[p]? with
    | some me =>
      if me.alive ∧ me.phase = .idle ∧ me.owned.isSome then
        ({ m with
          processes := m.processes.modify p ({ · with owned := none }) } : Machine).unlink ok
      else m
    | none => m
  | .die p => { m with processes := m.processes.modify p ({ · with alive := false }) }

/-- The machine at first: there may be a file, with anything in it. -/
def Machine.start (left : Option Bytes) : Machine := ⟨left.toList, left.map fun _ ↦ 0, []⟩

/-- No two live processes are between `hue_lock_acquire` and `hue_lock_release`. -/
def Machine.Exclusive (m : Machine) : Prop :=
  ∀ (p q : Nat) (me you : Process), m.processes[p]? = some me → m.processes[q]? = some you →
    me.alive = true → you.alive = true → me.owned.isSome = true → you.owned.isSome = true → p = q

/-- The file that a process is about to remove. -/
def Phase.doomed : Phase → Option Nat
  | .failing file => some file
  | .removing file _ => some file
  | .idle => none
  | .opening _ => none
  | .writing _ => none
  | .closing _ => none
  | .looking _ => none
  | .reading .. => none
  | .probing .. => none
  | .pausing _ => none

/-- Before a process removes a file as stale, or after a write that failed, no other file has taken
its place. -/
def Machine.Undisturbed (m : Machine) : LockAction → Prop
  | .advance p _ _ => ∀ me ∈ m.processes[p]?, ∀ file ∈ me.phase.doomed,
      me.alive = true → m.lock = none ∨ m.lock = some file
  | _ => True

instance (m : Machine) : (action : LockAction) → Decidable (m.Undisturbed action)
  | .advance p _ _ => inferInstanceAs (Decidable (∀ me ∈ m.processes[p]?,
      ∀ file ∈ me.phase.doomed, me.alive = true → m.lock = none ∨ m.lock = some file))
  | .spawn _ => .isTrue trivial
  | .acquire .. => .isTrue trivial
  | .release .. => .isTrue trivial
  | .die _ => .isTrue trivial

/-! ## The invariant -/

/-- The file that a process has created and will own. -/
def Phase.created : Phase → Option Nat
  | .writing file => some file
  | .closing file => some file
  | .idle => none
  | .opening _ => none
  | .failing _ => none
  | .looking _ => none
  | .reading .. => none
  | .probing .. => none
  | .removing .. => none
  | .pausing _ => none

/-- The file that is opened. -/
def Phase.opened : Phase → Option Nat
  | .reading file _ => some file
  | .probing file _ _ => some file
  | .removing file _ => some file
  | .writing file => some file
  | .closing file => some file
  | .failing file => some file
  | .idle => none
  | .opening _ => none
  | .looking _ => none
  | .pausing _ => none

variable {file : Nat} {phase : Phase}

theorem Phase.opened_of_doomed (h : phase.doomed = some file) : phase.opened = some file := by
  cases phase <;> first | exact h | cases h

/-- The file that is a live process's lock, or is about to be. -/
def Process.claim (me : Process) : Option Nat :=
  if me.alive then me.phase.created.or me.owned else none

/-- What is in that file. -/
def Process.text (me : Process) : Bytes :=
  match me.phase with
  | .writing _ => []
  | _ => Bytes.ofNat me.pid ++ [10]

theorem Process.text_cases (me : Process) : me.text = [] ∨ me.text = ofNat me.pid ++ [10] := by
  rw [Process.text]
  split
  · exact .inl rfl
  · exact .inr rfl

theorem Process.claim_of_created {me : Process} (hcreated : me.phase.created = none) :
    me.claim = if me.alive then me.owned else none := by
  rw [Process.claim, hcreated, Option.none_or]

theorem Process.text_of_created {me : Process} (hcreated : me.phase.created = none) :
    me.text = ofNat me.pid ++ [10] := by
  rw [Process.text]
  split
  · rename_i hphase
    rw [hphase] at hcreated
    cases hcreated
  · rfl

namespace Machine

/-- Nobody claims the file. -/
def Free (m : Machine) (file : Nat) : Prop :=
  ∀ (q : Nat) (you : Process), m.processes[q]? = some you → you.claim ≠ some file

/-- Whoever claims the file has this number. -/
def OwnedBy (m : Machine) (file : Nat) (owner : Int) : Prop :=
  ∀ (q : Nat) (you : Process), m.processes[q]? = some you → you.claim = some file → owner = you.pid

/-- What holds of each process. -/
structure Fine (m : Machine) (me : Process) : Prop where
  pid : me.pid < 2 ^ 31
  /-- A lock is created by a process that has none. -/
  single : me.phase.created.isSome = true → me.owned = none
  opened : ∀ file, me.phase.opened = some file → file < m.files.length
  /-- A file that is claimed is the one at the path, and it says whose it is. -/
  claim : ∀ file, me.claim = some file → m.lock = some file ∧ m.files[file]? = some me.text
  probing : ∀ file owner left, me.phase = .probing file owner left → m.OwnedBy file owner
  /-- A file that is about to be removed belongs to nobody. -/
  doomed : ∀ file, me.phase.doomed = some file → m.Free file

/-- **The invariant of the lock.** -/
structure Inv (m : Machine) : Prop where
  lock : ∀ file, m.lock = some file → file < m.files.length
  process : ∀ (p : Nat) (me : Process), m.processes[p]? = some me → m.Fine me
  single : ∀ (p q : Nat) (me you : Process) (file : Nat), m.processes[p]? = some me →
    m.processes[q]? = some you → me.claim = some file → you.claim = some file → p = q

variable {m : Machine}

theorem Inv.exclusive (h : m.Inv) : m.Exclusive := by
  intro p q me you hme hyou hmine hyours howned howned'
  have hclaim {r : Nat} {he : Process} (hhe : m.processes[r]? = some he) (halive : he.alive = true)
      (howned : he.owned.isSome = true) : ∃ file, he.claim = some file ∧ m.lock = some file := by
    have hcreated : he.phase.created = none := by
      by_contra hsome
      have hnone := (h.process r he hhe).single (Option.isSome_iff_ne_none.mpr hsome)
      rw [hnone] at howned
      cases howned
    obtain ⟨file, hfile⟩ := Option.isSome_iff_exists.mp howned
    have hclaim : he.claim = some file := by
      rw [Process.claim, if_pos halive, hcreated, Option.none_or, hfile]
    exact ⟨file, hclaim, ((h.process r he hhe).claim file hclaim).1⟩
  obtain ⟨file, hfile, hlock⟩ := hclaim hme hmine howned
  obtain ⟨file', hfile', hlock'⟩ := hclaim hyou hyours howned'
  obtain rfl := Option.some.inj (hlock.symm.trans hlock')
  exact h.single p q me you file hme hyou hfile hfile'

theorem inv_start (left : Option Bytes) : (start left).Inv := by
  refine ⟨fun file hfile ↦ ?_, (fun _ _ h ↦ nomatch h), fun _ _ _ _ _ h ↦ nomatch h⟩
  cases left with
  | none => cases hfile
  | some text =>
    cases hfile
    exact Nat.zero_lt_one

/-! ## A process goes on -/

/-- The processes are the same, and claim nothing that they have not claimed before. -/
def Shrinks (m m' : Machine) : Prop :=
  ∀ (q : Nat) (you : Process), m'.processes[q]? = some you → ∃ before : Process,
    m.processes[q]? = some before ∧ you.pid = before.pid ∧
      ∀ file, you.claim = some file → before.claim = some file

variable {m' : Machine}

theorem Shrinks.free (hshrinks : m.Shrinks m') (hfree : m.Free file) : m'.Free file := by
  intro q you hyou hclaim
  obtain ⟨before, hbefore, -, hsame⟩ := hshrinks q you hyou
  exact hfree q before hbefore (hsame file hclaim)

theorem Shrinks.ownedBy (hshrinks : m.Shrinks m') {owner : Int}
    (howned : m.OwnedBy file owner) : m'.OwnedBy file owner := by
  intro q you hyou hclaim
  obtain ⟨before, hbefore, hpid, hsame⟩ := hshrinks q you hyou
  rw [hpid]
  exact howned q before hbefore (hsame file hclaim)

/-- It is enough to look at each process by itself. -/
theorem Shrinks.inv (hshrinks : m.Shrinks m') (h : m.Inv)
    (hlock : ∀ file, m'.lock = some file → file < m'.files.length)
    (hprocess : ∀ (q : Nat) (you : Process), m'.processes[q]? = some you → m'.Fine you) :
    m'.Inv := by
  refine ⟨hlock, hprocess, fun q r you he file hyou hhe hyours hhis ↦ ?_⟩
  obtain ⟨before, hbefore, -, hsame⟩ := hshrinks q you hyou
  obtain ⟨before', hbefore', -, hsame'⟩ := hshrinks r he hhe
  exact h.single q r before before' file hbefore hbefore' (hsame file hyours) (hsame' file hhis)

variable {f : Process → Process}

theorem shrinks_modify {p : Nat} {me : Process} (hme : m.processes[p]? = some me)
    (hpid : (f me).pid = me.pid)
    (hclaim : ∀ file, (f me).claim = some file → me.claim = some file) (files : List Bytes)
    (lock : Option Nat) : m.Shrinks ⟨files, lock, m.processes.modify p f⟩ := by
  intro q you hyou
  rcases Slots.of_modify hme hyou with ⟨rfl, rfl⟩ | ⟨-, hyou⟩
  · exact ⟨me, hme, hpid, hclaim⟩
  · exact ⟨you, hyou, rfl, fun _ hfile ↦ hfile⟩

section

variable (h : m.Inv) {p : Nat} {me : Process} (hme : m.processes[p]? = some me)
include h hme

/-- A process changes, and claims nothing that it has not claimed before. -/
theorem inv_modify (hpid : (f me).pid = me.pid)
    (hclaim : ∀ file, (f me).claim = some file → me.claim = some file ∧ (f me).text = me.text)
    (hsingle : (f me).phase.created.isSome = true → (f me).owned = none)
    (hopened : ∀ file, (f me).phase.opened = some file → file < m.files.length)
    (hprobing : ∀ file owner left, (f me).phase = .probing file owner left → m.OwnedBy file owner)
    (hdoomed : ∀ file, (f me).phase.doomed = some file → m.Free file) :
    ({ m with processes := m.processes.modify p f } : Machine).Inv := by
  have hshrinks := shrinks_modify hme hpid (fun file hfile ↦ (hclaim file hfile).1) m.files m.lock
  refine hshrinks.inv h h.lock fun q you hyou ↦ ?_
  rcases Slots.of_modify hme hyou with ⟨rfl, rfl⟩ | ⟨-, hyou⟩
  · have hfine := h.process p me hme
    refine ⟨hpid ▸ hfine.pid, hsingle, hopened, fun file hfile ↦ ?_,
      fun file owner left hphase ↦ hshrinks.ownedBy (hprobing file owner left hphase),
      fun file hfile ↦ hshrinks.free (hdoomed file hfile)⟩
    obtain ⟨hclaims, htext⟩ := hclaim file hfile
    rw [htext]
    exact hfine.claim file hclaims
  · have hfine := h.process q you hyou
    exact ⟨hfine.pid, hfine.single, hfine.opened, hfine.claim,
      fun file owner left hphase ↦ hshrinks.ownedBy (hfine.probing file owner left hphase),
      fun file hfile ↦ hshrinks.free (hfine.doomed file hfile)⟩

/-- A process goes on to a phase in which it has not created a file. -/
theorem inv_goto (hcreated : phase.created = none)
    (hopened : ∀ file, phase.opened = some file → file < m.files.length)
    (hprobing : ∀ file owner left, phase = .probing file owner left → m.OwnedBy file owner)
    (hdoomed : ∀ file, phase.doomed = some file → m.Free file) : (m.goto p phase).Inv := by
  refine inv_modify h hme rfl (fun file hfile ↦ ?_) (fun hsome ↦ ?_) hopened hprobing hdoomed
  · have hnew : ({ me with phase } : Process).claim = if me.alive then me.owned else none :=
      Process.claim_of_created hcreated
    rw [hnew] at hfile
    have hmine : me.phase.created = none := by
      by_contra hsome
      rw [(h.process p me hme).single (Option.isSome_iff_ne_none.mpr hsome)] at hfile
      split at hfile <;> cases hfile
    rw [Process.claim_of_created hmine, Process.text_of_created hmine]
    exact ⟨hfile, Process.text_of_created hcreated⟩
  · rw [hcreated] at hsome
    cases hsome

/-- The same of a phase in which it has no file at all. -/
theorem inv_goto_plain (hopened : phase.opened = none) : (m.goto p phase).Inv := by
  have hcreated : phase.created = none := by cases phase <;> first | rfl | cases hopened
  have hdoomed : phase.doomed = none := by cases phase <;> first | rfl | cases hopened
  refine inv_goto h hme hcreated (fun file hfile ↦ ?_) (fun file owner left hphase ↦ ?_)
    fun file hfile ↦ ?_
  · cases hopened.symm.trans hfile
  · rw [hphase] at hopened
    cases hopened
  · cases hdoomed.symm.trans hfile

end

/-- The file at the path is removed, and nobody has claimed it. -/
theorem inv_unlink (h : m.Inv) (hfree : ∀ (q : Nat) (you : Process), m.processes[q]? = some you →
    you.claim = none) (ok : Bool) : (m.unlink ok).Inv := by
  rw [unlink]
  split
  · refine ⟨nofun, fun p me hme ↦ ?_, h.single⟩
    have hfine := h.process p me hme
    refine ⟨hfine.pid, hfine.single, hfine.opened, fun file hfile ↦ ?_, hfine.probing, hfine.doomed⟩
    cases (hfree p me hme).symm.trans hfile
  · exact h

theorem goto_unlink (p : Nat) (phase : Phase) (ok : Bool) :
    (m.goto p phase).unlink ok = (m.unlink ok).goto p phase := by
  cases ok <;> rfl

/-- A file that belongs to nobody is removed, or there is none. -/
theorem inv_remove (h : m.Inv) (hfree : m.Free file)
    (hlock : m.lock = none ∨ m.lock = some file) (ok : Bool) : (m.unlink ok).Inv := by
  refine inv_unlink h (fun q you hyou ↦ ?_) ok
  by_contra hclaim
  obtain ⟨file', hclaim⟩ := Option.ne_none_iff_exists'.mp hclaim
  have hlinked := ((h.process q you hyou).claim file' hclaim).1
  rcases hlock with hlock | hlock
  · cases hlock.symm.trans hlinked
  · obtain rfl := Option.some.inj (hlock.symm.trans hlinked)
    exact hfree q you hyou hclaim

section

variable (h : m.Inv) {p : Nat} {me : Process} (hme : m.processes[p]? = some me)
include h hme

/-- A process that claims nothing creates the file. -/
theorem inv_create (halive : me.alive = true) (hcreated : me.phase.created = none)
    (hlock : m.lock = none) : ({ m.goto p (.writing m.files.length) with
      files := m.files ++ [[]], lock := some m.files.length } : Machine).Inv := by
  have hnone (q : Nat) (you : Process) (hyou : m.processes[q]? = some you) : you.claim = none := by
    by_contra hclaim
    obtain ⟨file, hclaim⟩ := Option.ne_none_iff_exists'.mp hclaim
    cases hlock.symm.trans ((h.process q you hyou).claim file hclaim).1
  have howned : me.owned = none := by
    have hclaim := hnone p me hme
    rwa [Process.claim_of_created hcreated, if_pos halive] at hclaim
  have hclaims {q : Nat} {you : Process} {file : Nat}
      (hyou : (m.goto p (.writing m.files.length)).processes[q]? = some you)
      (hclaim : you.claim = some file) : p = q ∧ file = m.files.length := by
    rcases Slots.of_modify hme hyou with ⟨rfl, rfl⟩ | ⟨-, hyou⟩
    · rw [Process.claim, if_pos halive] at hclaim
      exact ⟨rfl, (Option.some.inj hclaim).symm⟩
    · cases (hnone q you hyou).symm.trans hclaim
  have hlength : (m.files ++ [[]]).length = m.files.length + 1 := length_append
  refine ⟨fun file hfile ↦ ?_, fun q you hyou ↦ ?_, fun q r you he file hyou hhe hyours hhis ↦ ?_⟩
  · cases hfile
    exact hlength ▸ Nat.lt_succ_self _
  · rcases Slots.of_modify hme hyou with ⟨rfl, rfl⟩ | ⟨-, hyou⟩
    · have hfine := h.process p me hme
      refine ⟨hfine.pid, fun _ ↦ howned, fun file hfile ↦ ?_, fun file hfile ↦ ?_, nofun, nofun⟩
      · cases hfile
        exact hlength ▸ Nat.lt_succ_self _
      rw [Process.claim, if_pos halive] at hfile
      cases hfile
      exact ⟨rfl, getElem?_concat_length⟩
    · have hfine := h.process q you hyou
      have hknown {file : Nat} (hopened : you.phase.opened = some file) :
          file < m.files.length := hfine.opened file hopened
      refine ⟨hfine.pid, hfine.single, fun file hfile ↦ ?_, fun file hfile ↦ ?_,
        fun file owner left hphase r he hhe hclaim ↦ ?_, fun file hfile r he hhe hclaim ↦ ?_⟩
      · exact hlength ▸ Nat.lt_succ_of_lt (hknown hfile)
      · cases (hnone q you hyou).symm.trans hfile
      · exact absurd (hclaims hhe hclaim).2 (hknown (by rw [hphase]; rfl)).ne
      · exact absurd (hclaims hhe hclaim).2 (hknown (Phase.opened_of_doomed hfile)).ne
  · exact (hclaims hyou hyours).1.symm.trans (hclaims hhe hhis).1

theorem inv_write (halive : me.alive = true) (hphase : me.phase = .writing file) {bytes : Bytes}
    (hnext : phase = .closing file ∧ bytes = ofNat me.pid ++ [10] ∨ phase = .failing file) :
    ({ m.goto p phase with files := m.files.modify file (· ++ bytes) } : Machine).Inv := by
  have hfine := h.process p me hme
  have hmine : me.claim = some file := by rw [Process.claim, if_pos halive, hphase]; rfl
  have howned : me.owned = none := hfine.single (by rw [hphase]; rfl)
  obtain ⟨hlock, hempty⟩ := hfine.claim file hmine
  have htext : me.text = [] := by rw [Process.text, hphase]
  have hother {q : Nat} {you : Process} {file' : Nat} (hyou : m.processes[q]? = some you)
      (hq : p ≠ q) (hclaim : you.claim = some file') : file ≠ file' := by
    rintro rfl
    exact hq (h.single p q me you file hme hyou hmine hclaim)
  have hclaim {file' : Nat} (hfile' : ({ me with phase } : Process).claim = some file') :
      phase = .closing file ∧ bytes = ofNat me.pid ++ [10] ∧ file' = file := by
    rw [Process.claim, if_pos (show _ = true from halive), howned, Option.or_none] at hfile'
    rcases hnext with ⟨rfl, hbytes⟩ | rfl
    · exact ⟨rfl, hbytes, (Option.some.inj hfile').symm⟩
    · cases hfile'
  have hlength : (m.files.modify file (· ++ bytes)).length = m.files.length :=
    length_modify ..
  have hshrinks : m.Shrinks
      { m.goto p phase with files := m.files.modify file (· ++ bytes) } := by
    refine shrinks_modify hme rfl (fun file' hfile' ↦ ?_) _ _
    rw [(hclaim hfile').2.2, hmine]
  refine hshrinks.inv h (fun file' hfile' ↦ hlength ▸ h.lock file' hfile') fun q you hyou ↦ ?_
  rcases Slots.of_modify hme hyou with ⟨rfl, rfl⟩ | ⟨hq, hyou⟩
  · refine ⟨hfine.pid, fun _ ↦ howned, fun file' hfile' ↦ ?_, fun file' hfile' ↦ ?_,
      fun file' owner left hphase' ↦ ?_, fun file' hfile' ↦ ?_⟩
    · have hopened : phase.opened = some file := by
        rcases hnext with ⟨rfl, -⟩ | rfl
        · rfl
        · rfl
      obtain rfl := Option.some.inj (hopened.symm.trans hfile')
      exact hlength ▸ h.lock file hlock
    · obtain ⟨rfl, rfl, rfl⟩ := hclaim hfile'
      refine ⟨hlock, (getElem?_modify_eq ..).trans ?_⟩
      rw [hempty, htext]
      rfl
    · rcases hnext with ⟨rfl, -⟩ | rfl
      · cases hphase'
      · cases hphase'
    · obtain rfl : phase = .failing file := by
        rcases hnext with ⟨rfl, -⟩ | rfl
        · cases hfile'
        · rfl
      cases hfile'
      intro r he hhe hhis
      rcases Slots.of_modify hme hhe with ⟨-, rfl⟩ | ⟨hr, hhe⟩
      · cases (hclaim hhis).1
      · exact hother hhe hr hhis rfl
  · have hfine' := h.process q you hyou
    refine ⟨hfine'.pid, hfine'.single, fun file' hfile' ↦ hlength ▸ hfine'.opened file' hfile',
      fun file' hfile' ↦ ?_,
      fun file' owner left hphase' ↦ hshrinks.ownedBy (hfine'.probing file' owner left hphase'),
      fun file' hfile' ↦ hshrinks.free (hfine'.doomed file' hfile')⟩
    obtain ⟨hlinked, htext⟩ := hfine'.claim file' hfile'
    exact ⟨hlinked, (getElem?_modify_ne _ _ (hother hyou hq hfile')).trans htext⟩

theorem inv_own (hphase : me.phase = .closing file) : ({ m with
    processes := m.processes.modify p ({ · with phase := .idle, owned := some file }) } :
      Machine).Inv := by
  refine inv_modify h hme rfl (fun file' hfile' ↦ ?_) nofun nofun nofun nofun
  rw [Process.claim] at hfile' ⊢
  split at hfile'
  · rename_i halive
    refine ⟨?_, ?_⟩
    · rw [if_pos halive, hphase]
      exact hfile'
    · rw [Process.text, Process.text, hphase]
  · cases hfile'

theorem inv_release (halive : me.alive = true) (hphase : me.phase = .idle)
    (howned : me.owned.isSome = true) (ok : Bool) : (({ m with
      processes := m.processes.modify p ({ · with owned := none }) } : Machine).unlink ok).Inv := by
  have hcreated : me.phase.created = none := by rw [hphase]; rfl
  obtain ⟨file, hfile⟩ := Option.isSome_iff_exists.mp howned
  have hmine : me.claim = some file := by
    rw [Process.claim_of_created hcreated, if_pos halive, hfile]
  have hnone : ({ me with owned := none } : Process).claim = none := by
    rw [Process.claim, hcreated]
    split <;> rfl
  have hlinked := ((h.process p me hme).claim file hmine).1
  refine inv_unlink (inv_modify h hme rfl (fun file' hfile' ↦ ?_) (fun _ ↦ rfl)
    (h.process p me hme).opened (h.process p me hme).probing (h.process p me hme).doomed)
    (fun q you hyou ↦ ?_) ok
  · cases hnone.symm.trans hfile'
  rcases Slots.of_modify hme hyou with ⟨-, rfl⟩ | ⟨hq, hyou⟩
  · exact hnone
  by_contra hclaim
  obtain ⟨file', hclaim⟩ := Option.ne_none_iff_exists'.mp hclaim
  have hlinked' := ((h.process q you hyou).claim file' hclaim).1
  obtain rfl := Option.some.inj (hlinked.symm.trans hlinked')
  exact hq (h.single p q me you file hme hyou hmine hclaim)

end

variable {long : Nat}

/-- What is read in a file that someone claims is whose it is, or nothing. -/
theorem ownedBy_read (h : m.Inv) (hlong : 2 ^ 31 ≤ long) (file : Nat)
    (howner : 1 < (strtoSigned long (m.files.getD file [])).1) :
    m.OwnedBy file (strtoSigned long (m.files.getD file [])).1 := by
  intro q you hyou hclaim
  have hfine := h.process q you hyou
  have hpid := hfine.pid
  have hfile : m.files.getD file [] = you.text := by
    rw [getD_eq_getElem?_getD, (hfine.claim file hclaim).2, Option.getD_some]
  rw [hfile] at howner ⊢
  rcases you.text_cases with htext | htext
  · rw [htext] at howner
    exact absurd howner (by simp [strtoSigned, sign, number])
  · rw [htext, strtoSigned_ofNat (by omega) rfl]

/-- A file whose owner is not found belongs to nobody. -/
theorem free_of_not_found (h : m.Inv) {owner : Int} (howned : m.OwnedBy file owner)
    (hfound : m.processes.any (fun q ↦ q.alive && ((q.pid : Int) = owner.bmod (2 ^ 32))) = false) :
    m.Free file := by
  intro q you hyou hclaim
  have hpid := (h.process q you hyou).pid
  have halive : you.alive = true := by
    by_contra hdead
    rw [Process.claim, if_neg hdead] at hclaim
    cases hclaim
  have hnot := any_eq_false.mp hfound you (mem_of_getElem? hyou)
  rw [howned q you hyou hclaim, halive, Bool.true_and, decide_eq_true_eq] at hnot
  refine hnot ?_
  rw [Int.bmod_def]
  omega

theorem inv_die (h : m.Inv) (p : Nat) : ({ m with
    processes := m.processes.modify p ({ · with alive := false }) } : Machine).Inv := by
  cases hme : m.processes[p]? with
  | none =>
    rw [modify_eq_self (List.getElem?_eq_none_iff.mp hme)]
    exact h
  | some me =>
    have hfine := h.process p me hme
    exact inv_modify h hme rfl nofun hfine.single hfine.opened hfine.probing hfine.doomed

theorem inv_spawn (h : m.Inv) {pid : Nat} (hpid : pid < 2 ^ 31) :
    ({ m with processes := m.processes ++ [{ pid }] } : Machine).Inv := by
  have hback {q : Nat} {you : Process}
      (hyou : (m.processes ++ [({ pid } : Process)])[q]? = some you) :
      m.processes[q]? = some you ∨ you = { pid } := by
    rw [getElem?_append] at hyou
    split at hyou
    · exact .inl hyou
    rw [getElem?_singleton] at hyou
    split at hyou
    · exact .inr (Option.some.inj hyou).symm
    · cases hyou
  have hclaim {q : Nat} {you : Process} {file : Nat}
      (hyou : (m.processes ++ [({ pid } : Process)])[q]? = some you)
      (hfile : you.claim = some file) :
      m.processes[q]? = some you := by
    rcases hback hyou with hyou | rfl
    · exact hyou
    · cases hfile
  refine ⟨h.lock, fun q you hyou ↦ ?_, fun q r you he file hyou hhe hyours hhis ↦ ?_⟩
  · rcases hback hyou with hyou | rfl
    · have hfine := h.process q you hyou
      refine ⟨hfine.pid, hfine.single, hfine.opened, hfine.claim,
        fun file owner left hphase r he hhe hhis ↦ ?_, fun file hfile r he hhe hhis ↦ ?_⟩
      · exact hfine.probing file owner left hphase r he (hclaim hhe hhis) hhis
      · exact hfine.doomed file hfile r he (hclaim hhe hhis) hhis
    · exact ⟨hpid, nofun, nofun, nofun, nofun, nofun⟩
  · exact h.single q r you he file (hclaim hyou hyours) (hclaim hhe hhis) hyours hhis

/-! ## Every step -/

theorem notStale_opened (left : Nat) : (notStale left).opened = none := by
  rw [notStale]
  split <;> rfl

/-- **Every system call keeps the invariant**, if nothing has got in the way of an `unlink`. -/
theorem inv_call (hlong : 2 ^ 31 ≤ long) (h : m.Inv) {p : Nat} {me : Process}
    (hme : m.processes[p]? = some me) (halive : me.alive = true)
    (hundisturbed : ∀ file ∈ me.phase.doomed, m.lock = none ∨ m.lock = some file) (ok : Bool)
    (n : Nat) : (m.call long p me ok n).Inv := by
  have hfine := h.process p me hme
  have hstays (left : Nat) : (m.goto p (notStale left)).Inv :=
    inv_goto_plain h hme (notStale_opened left)
  have hremoves (file : Nat) (hdoomed : me.phase.doomed = some file) (phase : Phase)
      (hphase : phase.opened = none) : ((m.goto p phase).unlink ok).Inv := by
    rw [goto_unlink]
    have hremoved := inv_remove h (hfine.doomed file hdoomed) (hundisturbed file hdoomed) ok
    exact inv_goto_plain hremoved (by cases ok <;> exact hme) hphase
  rw [call]
  split
  · exact h
  · rename_i left hphase
    split
    · exact inv_goto_plain h hme rfl
    split
    · exact inv_goto_plain h hme rfl
    rename_i hlock
    split
    · exact inv_create h hme halive (by rw [hphase]; rfl)
        (Option.not_isSome_iff_eq_none.mp hlock)
    · exact inv_goto_plain h hme rfl
  · rename_i file hphase
    dsimp only
    refine inv_write h hme halive hphase ?_
    split
    · rename_i hn
      exact .inl ⟨rfl, take_of_length_le hn⟩
    · exact .inr rfl
  · rename_i file hphase
    exact hremoves file (by rw [hphase]; rfl) _ rfl
  · rename_i file hphase
    exact inv_own h hme hphase
  · rename_i left hphase
    split
    · rename_i file hlock
      cases ok with
      | false => exact hstays left
      | true =>
        refine inv_goto h hme rfl (fun file' hfile' ↦ ?_) nofun nofun
        cases hfile'
        exact h.lock file hlock
    · exact hstays left
  · rename_i file left hphase
    dsimp only
    split
    · rename_i howner
      refine inv_goto h hme rfl (fun file' hfile' ↦ ?_) (fun file' owner left' hphase' ↦ ?_) nofun
      · cases hfile'
        exact hfine.opened file (by rw [hphase]; rfl)
      · cases hphase'
        exact ownedBy_read h hlong file howner
    · exact hstays left
  · rename_i file owner left hphase
    dsimp only
    split
    · rename_i hgone
      have hfound := (Bool.and_eq_true_iff.mp hgone).1
      rw [Bool.not_eq_true'] at hfound
      refine inv_goto h hme rfl (fun file' hfile' ↦ ?_) nofun fun file' hfile' ↦ ?_
      · cases hfile'
        exact hfine.opened file (by rw [hphase]; rfl)
      · cases hfile'
        exact free_of_not_found h (hfine.probing file owner left hphase) hfound
    · exact hstays left
  · rename_i file left hphase
    exact hremoves file (by rw [hphase]; rfl) _ rfl
  · exact inv_goto_plain h hme rfl

theorem inv_step (hlong : 2 ^ 31 ≤ long) (h : m.Inv) {action : LockAction}
    (haction : m.Undisturbed action) : (m.step long action).Inv := by
  cases action with
  | spawn pid =>
    rw [step]
    split
    · rename_i hpid
      exact inv_spawn h hpid.2.1
    · exact h
  | acquire p timeout =>
    rw [step]
    split
    · rename_i me hme
      split
      · exact inv_goto_plain h hme rfl
      · exact h
    · exact h
  | advance p ok n =>
    rw [step]
    split
    · rename_i me hme
      split
      · rename_i halive
        refine inv_call hlong h hme halive (fun file hfile ↦ ?_) ok n
        exact haction me hme file hfile halive
      · exact h
    · exact h
  | release p ok =>
    rw [step]
    split
    · rename_i me hme
      split
      · rename_i howned
        exact inv_release h hme howned.1 howned.2.1 howned.2.2 ok
      · exact h
    · exact h
  | die p => exact inv_die h p

end Machine

/-! ## The result -/

/-- **No two processes have the lock at the same time**, in every run in which nobody removes a file
that has taken the place of the one it has looked at, or created. -/
theorem lock_exclusive {long : Nat} (hlong : 2 ^ 31 ≤ long) (left : Option Bytes)
    {actions : List LockAction}
    (h : Trace.Throughout (Machine.step long) Machine.Undisturbed (Machine.start left) actions) :
    Trace.Always (Machine.step long) Machine.Exclusive (Machine.start left) actions := by
  have hkeep (m : Machine) (action : LockAction) (hinv : m.Inv) (haction : m.Undisturbed action) :
      (m.step long action).Inv := Machine.inv_step hlong hinv haction
  exact Trace.always_of_throughout hkeep (fun m hinv ↦ hinv.exclusive) (Machine.inv_start left) h

/-- Two processes find the file that process 999 has left behind, one after the other. -/
def bothLook : List LockAction :=
  [.spawn 10, .spawn 11, .acquire 0 30, .acquire 1 30] ++
    List.replicate 4 (.advance 0 true 0) ++ List.replicate 4 (.advance 1 true 0)

/-- A process removes the file it has found, and takes the lock. -/
def takeOver (p : Nat) : List LockAction := List.replicate 4 (.advance p true 64)

/-- **Two processes have the lock at the same time.** -/
theorem two_hold_the_lock : ¬ Trace.Always (Machine.step (2 ^ 63)) Machine.Exclusive
    (Machine.start (some (Bytes.ofAscii "999\n"))) (bothLook ++ takeOver 0 ++ takeOver 1) := by
  intro h
  have hend := Trace.always_foldl h
  exact absurd (hend 0 1 ⟨10, true, .idle, some 1⟩ ⟨11, true, .idle, some 2⟩ (by decide +kernel)
    (by decide +kernel) rfl rfl rfl rfl) (by decide)

/-- If the first process has the lock before the second looks, the second waits. -/
theorem lock_exclusive_in_turn : Trace.Always (Machine.step (2 ^ 63)) Machine.Exclusive
    (Machine.start (some (Bytes.ofAscii "999\n")))
    ([.spawn 10, .acquire 0 30] ++ List.replicate 4 (.advance 0 true 0) ++ takeOver 0 ++
      [.spawn 11, .acquire 1 30] ++ List.replicate 5 (.advance 1 true 0)) :=
  lock_exclusive (by decide) _ (by decide +kernel)

end Noobia.Hue
