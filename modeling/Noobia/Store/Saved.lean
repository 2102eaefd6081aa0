import Noobia.Lib.Fault
import Noobia.Store.Snapshot

/-!
# Saved programs

`VM_SAVE` writes the program of the VM to a file of its own, `VM_DOWNLOAD` does the same with a
program that comes from elsewhere (`storeBytes`), and `VM_LOAD_SAVED` loads it again.  A program of
an earlier version of the store, whose file has no `prog_` in front, is found too.

`save` removes the old file and writes the new one in its place.  `storeBytes` uses `atomicWrite`,
but at the next boot `begin` recovers no files other than those of the snapshot.  So a program that
is being replaced can be lost in both ways, and in the first it can be cut off in the middle.
`replaced_program_iff` says exactly when it is not, for every operation that may fail or be cut off
by a power failure.
-/

namespace Noobia

open List

open Bytes (ofAscii)

/-- The operations of `save` and `atomicWrite` that change the card. -/
inductive Site
  /-- `save` removes the old file. -/
  | removeOld
  /-- `atomicWrite` removes a temporary file that was left behind. -/
  | removeTemporary
  /-- The file is opened for writing. -/
  | create
  /-- The program is written and the file is closed. -/
  | write
  /-- The temporary file is removed after a short write. -/
  | discard
  /-- A backup that was left behind is removed. -/
  | removeBackup
  /-- The old file is renamed to the backup. -/
  | preserve
  /-- The temporary file is removed because the old one could not be preserved. -/
  | abandon
  /-- The temporary file is renamed to the file. -/
  | install
  /-- The backup is renamed back because the new file could not be installed. -/
  | rollback
  /-- The backup is removed in the end. -/
  | finish
  deriving DecidableEq

/-- What becomes of each of the operations. -/
abbrev Faults := Site → Outcome

namespace Faulty

open Fault

/-- `atomicWrite`, when operations may fail. -/
def atomicWrite (faults : Faults) (path data : Bytes) : Proc Card (Except String Unit) := do
  let _ ← remove (faults .removeTemporary) (temporary path)
  let file ← create (faults .create) (temporary path)
  if file = false then pure (.error ("cannot create " ++ (temporary path).render)) else do
  let written ← write (faults .write) (temporary path) data
  if written ≠ data.length then do
    let _ ← remove (faults .discard) (temporary path)
    pure (.error ("short write " ++ toString written ++ "/" ++ toString data.length)) else do
  let _ ← remove (faults .removeBackup) (backup path)
  let hadPrevious ← present path
  let preserved ←
    if hadPrevious then rename (faults .preserve) path (backup path) else pure true
  if preserved = false then do
    let _ ← remove (faults .abandon) (temporary path)
    pure (.error ("cannot preserve previous " ++ path.render)) else do
  let installed ← rename (faults .install) (temporary path) path
  if installed = false then do
    let _ ← if hadPrevious then rename (faults .rollback) (backup path) path else pure true
    pure (.error ("cannot install " ++ path.render)) else do
  let _ ← remove (faults .finish) (backup path)
  pure (.ok ())

/-- **If nothing goes wrong this is the `atomicWrite` of the snapshot.** -/
theorem agrees_atomicWrite (path data : Bytes) :
    Agrees (atomicWrite (fun _ ↦ .done) path data) (Noobia.atomicWrite path data) := by
  refine .bind (agrees_op _ _) fun _ ↦ .bind (agrees_op _ _) fun _ ↦ .ite (agrees_pure _) ?_
  refine .bind (agrees_op _ _) fun _ ↦ .ite (.bind (agrees_op _ _) fun _ ↦ agrees_pure _) ?_
  refine .bind (agrees_op _ _) fun _ ↦ .bind (agrees_read _) fun hadPrevious ↦ ?_
  -- what follows is the same whether there was a file or not
  refine .ite (.bind (agrees_op _ _) fun preserved ↦ ?_) (.bind (agrees_pure _) fun preserved ↦ ?_)
  all_goals
    refine .ite (.bind (agrees_op _ _) fun _ ↦ agrees_pure _) ?_
    refine .bind (agrees_op _ _) fun _ ↦ .ite ?_ (.bind (agrees_op _ _) fun _ ↦ agrees_pure _)
    exact .ite (.bind (agrees_op _ _) fun _ ↦ agrees_pure _)
      (.bind (agrees_pure _) fun _ ↦ agrees_pure _)

/-! ## What `atomicWrite` leaves behind -/

open Proc (Wp)

/-- The old file is moved away, and neither the new one nor the old one comes back. -/
structure Stranded (faults : Faults) (path data : Bytes) (d : Card) : Prop where
  removeTemporary : ¬ (faults .removeTemporary).stops
  create : faults .create = .done
  write : ¬ (faults .write).stops ∧ (faults .write).written data.length = data.length
  removeBackup : ¬ (faults .removeBackup).stops ∧
    (faults .removeBackup = .done ∨ d (backup path) = none)
  preserve : faults .preserve = .done
  install : faults .install ≠ .done
  rollback : (faults .install).stops ∨ faults .rollback ≠ .done

section

variable {base d : Card} {path : Bytes} {main tmp bak : Option Bytes} {α : Type}
  {Q : α → Card → Prop} {E : Card → Prop} {o : Outcome} {k : Bool → Proc Card α}

/-- Whatever becomes of removing the temporary file, the others stay. -/
theorem wp_removeTmp (h : Shows base path main tmp bak d)
    (hcut : o.stops → E d) (hk : ¬ o.stops → ∀ r tmp' d', Shows base path main tmp' bak d' →
      Wp (k r) Q E d') : Wp (remove o (temporary path) >>= k) Q E d := by
  refine wp_op_bind (fun ho ↦ ?_) (fun n ho ↦ ?_) fun n ho ↦ hcut (by rw [ho]; trivial)
  · exact hk (by rw [ho]; exact id) _ none _ (h.setTmp none)
  · exact hk (by rw [ho]; exact id) _ tmp _ h

/-- The backup is gone if it was removed, or if there was none. -/
theorem wp_removeBak (h : Shows base path main tmp bak d)
    (hcut : o.stops → E d) (hk : ¬ o.stops → ∀ r bak' d',
      Shows base path main tmp bak' d' → (bak' = none ↔ o = .done ∨ bak = none) → Wp (k r) Q E d') :
    Wp (remove o (backup path) >>= k) Q E d := by
  refine wp_op_bind (fun ho ↦ ?_) (fun n ho ↦ ?_) fun n ho ↦ hcut (by rw [ho]; trivial)
  · exact hk (by rw [ho]; exact id) _ none _ (h.setBak none) (by simp [ho])
  · exact hk (by rw [ho]; exact id) _ bak _ h (by simp [ho])

theorem wp_createTmp (h : Shows base path main tmp bak d)
    (hcut : o ≠ .done → E d) (hfailed : o ≠ .done → Wp (k false) Q E d)
    (hdone : o = .done → ∀ d', Shows base path main (some []) bak d' → Wp (k true) Q E d') :
    Wp (create o (temporary path) >>= k) Q E d := by
  refine wp_op_bind (fun ho ↦ ?_) (fun n ho ↦ ?_) fun n ho ↦ hcut (by simp [ho])
  · exact hdone ho _ (h.setTmp (some []))
  · exact hfailed (by simp [ho])

theorem wp_writeTmp {k : Nat → Proc Card α} {data : Bytes}
    (h : Shows base path main (some []) bak d)
    (hcut : o.stops → ∀ tmp' d', Shows base path main tmp' bak d' → E d')
    (hk : ¬ o.stops → ∀ d', Shows base path main (some (data.take (o.written data.length))) bak d' →
      Wp (k (o.written data.length)) Q E d') : Wp (write o (temporary path) data >>= k) Q E d := by
  have hpart (n : Nat) : Shows base path main (some (data.take n)) bak
      (Files.write (temporary path) (data.take n) d).2 := by
    rw [Files.write, h.tmp]
    exact h.setTmp (some (data.take n))
  exact wp_write_bind (fun hgoes ↦ hk hgoes _ (hpart _)) fun hstop ↦ hcut hstop _ _ (hpart _)

theorem wp_rename {a b : Bytes} {data : Bytes} (ha : d a = some data)
    (hb : d b = none) (hcut : o.stops → E d) (hfailed : o ≠ .done → ¬ o.stops → Wp (k false) Q E d)
    (hdone : o = .done →
      Wp (k true) Q E (Function.update (Function.update d a none) b (some data))) :
    Wp (rename o a b >>= k) Q E d := by
  refine wp_op_bind (fun ho ↦ ?_) (fun n ho ↦ ?_) fun n ho ↦ hcut (by rw [ho]; trivial)
  · rw [Files.rename_of_some ha hb]
    exact hdone ho
  · exact hfailed (by simp [ho]) (by rw [ho]; exact id)

/-- A file is not moved to a place where there is one already. -/
theorem wp_rename_occupied {a b : Bytes} (hb : d b ≠ none)
    (hcut : o.stops → E d) (hk : ¬ o.stops → Wp (k false) Q E d) :
    Wp (rename o a b >>= k) Q E d := by
  have hrename : Files.rename a b d = (false, d) := by
    rw [Files.rename, if_neg]
    simp [hb]
  refine wp_op_bind (fun ho ↦ ?_) (fun n ho ↦ ?_) fun n ho ↦ hcut (by rw [ho]; trivial)
  · rw [hrename]
    exact hk (by rw [ho]; exact id)
  · exact hk (by rw [ho]; exact id)

end

/-- What is left of a file that is replaced. -/
structure Left (faults : Faults) (path data previous : Bytes) (d d' : Card) : Prop where
  rest : SameBut path d d'
  lost : Stranded faults path data d → d' path = none
  kept : ¬ Stranded faults path data d → d' path = some previous ∨ d' path = some data

section

variable {faults : Faults} {path data previous : Bytes} {d d' : Card} {tmp bak : Option Bytes}

theorem Left.old (h : Shows d path (some previous) tmp bak d')
    (hnot : ¬ Stranded faults path data d) : Left faults path data previous d d' :=
  ⟨h.rest, fun hs ↦ absurd hs hnot, fun _ ↦ .inl h.main⟩

theorem Left.new (h : Shows d path (some data) tmp bak d')
    (hnot : ¬ Stranded faults path data d) : Left faults path data previous d d' :=
  ⟨h.rest, fun hs ↦ absurd hs hnot, fun _ ↦ .inr h.main⟩

theorem Left.gone (h : Shows d path none tmp bak d') (hs : Stranded faults path data d) :
    Left faults path data previous d d' :=
  ⟨h.rest, fun _ ↦ h.main, fun hnot ↦ absurd hs hnot⟩

end

/-- **What `atomicWrite` leaves of a file that is replaced.** -/
theorem atomicWrite_replaces (faults : Faults) {path : Bytes} (data : Bytes) {d : Card}
    {previous : Bytes} (hprevious : d path = some previous) :
    Left faults path data previous d ((atomicWrite faults path data).final d) := by
  refine Proc.Wp.final (R := Left faults path data previous d) ?_
  have h := Shows.self d path
  rw [hprevious] at h
  refine wp_removeTmp h (fun hstop ↦ .old h fun hs ↦ hs.removeTemporary hstop)
    fun hremove _ tmp d₁ h₁ ↦ ?_
  have hcreate (ho : faults .create ≠ .done) : ¬ Stranded faults path data d :=
    fun hs ↦ ho hs.create
  refine wp_createTmp h₁ (fun ho ↦ .old h₁ (hcreate ho)) (fun ho ↦ ?_) fun ho d₂ h₂ ↦ ?_
  · rw [if_pos rfl]
    exact .old h₁ (hcreate ho)
  rw [if_neg (by decide)]
  refine wp_writeTmp h₂ (fun hstop _ _ h' ↦ .old h' fun hs ↦ hs.write.1 hstop) fun hwrite d₃ h₃ ↦ ?_
  split
  · rename_i hshort
    have hnot : ¬ Stranded faults path data d := fun hs ↦ hshort hs.write.2
    exact wp_removeTmp h₃ (fun _ ↦ .old h₃ hnot) fun _ _ _ d₄ h₄ ↦ .old h₄ hnot
  rename_i hwritten
  rw [not_not.mp hwritten, take_length] at h₃
  refine wp_removeBak h₃ (fun hstop ↦ .old h₃ fun hs ↦ hs.removeBackup.1 hstop)
    fun hbackup _ bak d₄ h₄ hbak ↦ Proc.wp_bind (Proc.wp_read ?_)
  rw [h₄.main, Option.isSome_some, if_pos rfl]
  by_cases hfree : bak = none
  · subst hfree
    have hpreserve (hne : faults .preserve ≠ .done) : ¬ Stranded faults path data d :=
      fun hs ↦ hne hs.preserve
    refine wp_rename h₄.main h₄.bak (fun hstop ↦ .old h₄ (hpreserve fun hdone ↦ ?_))
      (fun hne _ ↦ ?_) fun hpreserved ↦ ?_
    · rw [hdone] at hstop
      exact hstop
    · rw [if_pos rfl]
      exact wp_removeTmp h₄ (fun _ ↦ .old h₄ (hpreserve hne)) fun _ _ _ d₅ h₅ ↦
        .old h₅ (hpreserve hne)
    -- The old file has been moved away: now the new one has to come in, or the old one back.
    have h₅ := (h₄.setMain none).setBak (some previous)
    have hstranded (hinstall : faults .install ≠ .done)
        (hrollback : (faults .install).stops ∨ faults .rollback ≠ .done) :
        Stranded faults path data d :=
      ⟨hremove, ho, ⟨hwrite, not_not.mp hwritten⟩, ⟨hbackup, hbak.mp rfl⟩, hpreserved, hinstall,
        hrollback⟩
    refine Proc.wp_ite (fun hfalse ↦ nomatch hfalse) fun _ ↦ ?_
    refine wp_rename h₅.tmp h₅.main (fun hstop ↦ .gone h₅ (hstranded ?_ (.inl hstop)))
      (fun hne hgoes ↦ ?_) fun hinstalled ↦ ?_
    · intro hdone
      rw [hdone] at hstop
      exact hstop
    · rw [if_pos rfl, if_pos rfl]
      refine wp_rename h₅.bak h₅.main (fun hstop ↦ .gone h₅ (hstranded hne (.inr ?_)))
        (fun hne' _ ↦ .gone h₅ (hstranded hne (.inr hne'))) fun hback ↦ ?_
      · intro hdone
        rw [hdone] at hstop
        exact hstop
      refine .old ((h₅.setBak none).setMain (some previous)) fun hs ↦ ?_
      rcases hs.rollback with hstop | hne'
      · exact hgoes hstop
      · exact hne' hback
    · have hnot : ¬ Stranded faults path data d := fun hs ↦ hs.install hinstalled
      have h₆ := (h₅.setTmp none).setMain (some data)
      refine Proc.wp_ite (fun hfalse ↦ nomatch hfalse) fun _ ↦ ?_
      exact wp_removeBak h₆ (fun _ ↦ .new h₆ hnot) fun _ _ _ d₇ h₇ _ ↦ .new h₇ hnot
  · have hnot : ¬ Stranded faults path data d := fun hs ↦ hfree (hbak.mpr hs.removeBackup.2)
    refine wp_rename_occupied (h₄.bak ▸ hfree) (fun _ ↦ .old h₄ hnot) fun _ ↦ ?_
    refine Proc.wp_ite (fun _ ↦ ?_) fun htrue ↦ absurd rfl htrue
    exact wp_removeTmp h₄ (fun _ ↦ .old h₄ hnot) fun _ _ _ d₅ h₅ ↦ .old h₅ hnot

theorem atomicWrite_creates (faults : Faults) {path : Bytes} (data : Bytes) {d : Card}
    (hnone : d path = none) : SameBut path d ((atomicWrite faults path data).final d) ∧
      ((atomicWrite faults path data).final d path = none ∨
        (atomicWrite faults path data).final d path = some data) := by
  refine Proc.Wp.final (R := fun d' ↦ SameBut path d d' ∧ (d' path = none ∨ d' path = some data)) ?_
  have hold {tmp bak : Option Bytes} {d' : Card} (h : Shows d path none tmp bak d') :
      SameBut path d d' ∧ (d' path = none ∨ d' path = some data) := ⟨h.rest, .inl h.main⟩
  have h := Shows.self d path
  rw [hnone] at h
  refine wp_removeTmp h (fun _ ↦ hold h) fun _ _ tmp d₁ h₁ ↦ ?_
  refine wp_createTmp h₁ (fun _ ↦ hold h₁) (fun _ ↦ ?_) fun _ d₂ h₂ ↦ ?_
  · rw [if_pos rfl]
    exact hold h₁
  rw [if_neg (by decide)]
  refine wp_writeTmp h₂ (fun _ _ _ h' ↦ hold h') fun _ d₃ h₃ ↦ ?_
  split
  · exact wp_removeTmp h₃ (fun _ ↦ hold h₃) fun _ _ _ d₄ h₄ ↦ hold h₄
  rename_i hwritten
  rw [not_not.mp hwritten, take_length] at h₃
  refine wp_removeBak h₃ (fun _ ↦ hold h₃) fun _ _ bak d₄ h₄ _ ↦ Proc.wp_bind (Proc.wp_read ?_)
  rw [h₄.main, Option.isSome_none, if_neg (by decide)]
  refine Proc.wp_bind (Proc.wp_pure ?_)
  refine Proc.wp_ite (fun hfalse ↦ nomatch hfalse) fun _ ↦ ?_
  refine wp_rename h₄.tmp h₄.main (fun _ ↦ hold h₄) (fun _ _ ↦ ?_) fun _ ↦ ?_
  · exact Proc.wp_ite (fun _ ↦ hold h₄) fun htrue ↦ absurd rfl htrue
  have h₅ := (h₄.setTmp none).setMain (some data)
  refine Proc.wp_ite (fun hfalse ↦ nomatch hfalse) fun _ ↦ ?_
  exact wp_removeBak h₅ (fun _ ↦ ⟨h₅.rest, .inr h₅.main⟩) fun _ _ _ d₆ h₆ _ ↦
    ⟨h₆.rest, .inr h₆.main⟩

end Faulty

namespace ProgramStore

open Fault

def isAlphaNumeric (c : UInt8) : Bool :=
  (48 ≤ c && c ≤ 57) || (65 ≤ c && c ≤ 90) || (97 ≤ c && c ≤ 122)

def validName (name : Bytes) : Bool :=
  !(name.isEmpty || 32 < name.length) && name.all fun c ↦ isAlphaNumeric c || c = 45 || c = 95

variable (directory : Bytes)

def pathFor (arguments : Bytes) : Option Bytes :=
  let name := Bytes.trim arguments
  if validName name then
    let name := if (ofAscii "prog_").isPrefixOf name then name else ofAscii "prog_" ++ name
    some (directory ++ ofAscii "/" ++ name ++ ofAscii ".nvm")
  else none

def legacyPathFor (arguments : Bytes) : Option Bytes :=
  let name := Bytes.trim arguments
  if validName name then some (directory ++ ofAscii "/" ++ name ++ ofAscii ".nvm") else none

def save (faults : Faults) (vm : NoobVm) (arguments : Bytes) : Proc Card NativeResult :=
  match pathFor directory arguments with
  | none => pure (.fail "invalid program name")
  | some path =>
    let length := vm.programLength
    if length = 0 then pure (.fail "VM has no program") else do
    let found ← present path
    let _ ← if found then remove (faults .removeOld) path else pure true
    let file ← create (faults .create) path
    if file = false then pure (.fail "cannot create program") else do
    let written ← write (faults .write) path vm.loaded
    if written ≠ length then pure ⟨false, written, "program write failed", .empty⟩
    else pure ⟨true, length, "saved=" ++ path.render, .empty⟩

def storeBytes (faults : Faults) (name bytes : Bytes) (replace : Bool) : Proc Card NativeResult :=
  if bytes.length = 0 ∨ NoobVm.programBytes < bytes.length then pure (.fail "invalid VM size") else
  match pathFor directory name with
  | none => pure (.fail "invalid program name")
  | some path => do
    let found ← present path
    if !replace && found then pure (.fail "saved program already exists") else do
    match ← Faulty.atomicWrite faults path bytes with
    | .error error => pure (.fail error)
    | .ok _ => pure ⟨true, bytes.length, "saved=" ++ path.render ++ " active_vm_unchanged=1",
      .empty⟩

/-- What `load` does with a file that could be opened; reading it does not fail. -/
def loadFile (vm : NoobVm) (path bytes : Bytes) : NativeResult × NoobVm :=
  if bytes.length = 0 ∨ NoobVm.programBytes < bytes.length then
    (⟨false, bytes.length, "invalid saved program size", .empty⟩, vm)
  else
    match vm.load bytes with
    | .error error => (.fail error, vm)
    | .ok vm => (⟨true, bytes.length, "loaded=" ++ path.render, .empty⟩, vm)

/-- `load`, and the VM it leaves. -/
def load (vm : NoobVm) (arguments : Bytes) (d : Card) : NativeResult × NoobVm :=
  match pathFor directory arguments with
  | none => (.fail "invalid program name", vm)
  | some path =>
    match d path with
    | some bytes => loadFile vm path bytes
    | none =>
      let legacy := (legacyPathFor directory arguments).getD []
      match d legacy with
      | some bytes => loadFile vm legacy bytes
      | none => (.fail "saved program not found", vm)

/-- What is on the card after the next boot. -/
def reboot (d : Card) : Card := ((begin directory).final ⟨d, none⟩).disk

/-- The program is loaded. -/
def Loads (vm : NoobVm) (arguments : Bytes) (d : Card) (program : Bytes) : Prop :=
  (load directory vm arguments d).1.ok = true ∧ (load directory vm arguments d).2.loaded = program
  deriving Decidable

/-- What `load` falls back on after the next boot: the file of an earlier version of the store. -/
def fallback (arguments : Bytes) (d : Card) : Option Bytes :=
  (legacyPathFor directory arguments).bind fun legacy ↦
    if pathFor directory arguments = some legacy then none
    else if legacy = lastProgramPath directory then recovered d legacy
    else d legacy

/-! ## Paths -/

/-- The files of the snapshot. -/
def runtimeFiles : List Bytes :=
  [lastProgramPath directory, temporary (lastProgramPath directory),
    backup (lastProgramPath directory), lastRunPath directory, temporary (lastRunPath directory),
    backup (lastRunPath directory)]

variable {directory}

theorem reboot_spec (d : Card) : reboot directory d (lastProgramPath directory) =
      recovered d (lastProgramPath directory) ∧
    ∀ file ∉ runtimeFiles directory, reboot directory d file = d file := by
  have hsafe : Crash.Safe (begin directory) (fun _ ↦ True) (fun _ d' ↦
      d' (lastProgramPath directory) = recovered d (lastProgramPath directory) ∧
      ∀ file ∉ runtimeFiles directory, d' file = d file) d := by
    refine Crash.safe_bind ((recoverFile_safe _ d).mono (fun _ _ ↦ trivial) fun _ d₁ h₁ ↦ ?_)
    refine (recoverFile_safe _ d₁).mono (fun _ _ ↦ trivial) fun _ d₂ h₂ ↦ ⟨?_, fun file hfile ↦ ?_⟩
    · rw [h₂.2.2.eq apart_program_run.symm (by simp), h₁.1]
    simp only [runtimeFiles, mem_cons, not_mem_nil, or_false, not_or] at hfile
    obtain ⟨hprogram, htmp, hbak, hrun, htmp', hbak'⟩ := hfile
    rw [h₂.2.2 file hrun htmp' hbak', h₁.2.2 file hprogram htmp hbak]
  obtain ⟨_, d', hend, hspec⟩ := hsafe.ends
  rw [reboot, Proc.final, hend]
  exact hspec

variable {arguments path legacy : Bytes}

theorem getLast_temporary (path : Bytes) : (temporary path).getLast? = some 112 := by
  simp [temporary, ofAscii]

theorem getLast_backup (path : Bytes) : (backup path).getLast? = some 107 := by
  simp [backup, ofAscii]

theorem backup_ne_temporary (path path' : Bytes) : backup path ≠ temporary path' := by
  intro heq
  have hlast := getLast_backup path
  rw [heq, getLast_temporary] at hlast
  exact absurd hlast (by decide)

section

variable (hlegacy : legacyPathFor directory arguments = some legacy)

include hlegacy

theorem getLast_legacy : legacy.getLast? = some 109 := by
  rw [legacyPathFor] at hlegacy
  split at hlegacy
  · obtain rfl := Option.some.inj hlegacy
    rw [getLast?_append]
    rfl
  · cases hlegacy

/-- The file of an earlier version is not a temporary file or a backup. -/
theorem legacy_ne (path : Bytes) : legacy ≠ temporary path ∧ legacy ≠ backup path := by
  have hlast := getLast_legacy hlegacy
  constructor
  · rintro rfl
    rw [getLast_temporary] at hlast
    exact absurd hlast (by decide)
  · rintro rfl
    rw [getLast_backup] at hlast
    exact absurd hlast (by decide)

theorem legacy_not_mem (hne : legacy ≠ lastProgramPath directory) :
    legacy ∉ runtimeFiles directory := by
  have hrun : legacy ≠ lastRunPath directory := by
    rintro rfl
    have hlast := getLast_legacy hlegacy
    rw [lastRunPath, getLast?_append] at hlast
    exact absurd (Option.some.inj hlast) (by decide)
  simp only [runtimeFiles, mem_cons, not_mem_nil, or_false, not_or]
  exact ⟨hne, (legacy_ne hlegacy _).1, (legacy_ne hlegacy _).2, hrun, (legacy_ne hlegacy _).1,
    (legacy_ne hlegacy _).2⟩

end

/-- The path of a program is not the beginning of one of the snapshot's. -/
theorem path_append_not_mem (hpath : pathFor directory arguments = some path) (end_ : Bytes) :
    path ++ end_ ∉ runtimeFiles directory := by
  obtain ⟨rest, rfl⟩ : ∃ rest, path = directory ++ 47 :: 112 :: rest := by
    rw [pathFor] at hpath
    split at hpath
    · obtain rfl := Option.some.inj hpath
      split
      · rename_i hstart
        obtain ⟨rest, hrest⟩ := isPrefixOf_iff_prefix.mp hstart
        refine ⟨ofAscii "rog_" ++ rest ++ ofAscii ".nvm", ?_⟩
        rw [← hrest]
        simp [ofAscii]
      · exact ⟨ofAscii "rog_" ++ Bytes.trim arguments ++ ofAscii ".nvm", by simp [ofAscii]⟩
    · cases hpath
  have hother (other : Bytes) :
      directory ++ 47 :: 112 :: rest ++ end_ ≠ directory ++ 47 :: 114 :: other := by
    intro heq
    rw [append_assoc] at heq
    exact absurd (List.cons.inj (List.cons.inj (append_cancel_left heq)).2).1 (by decide)
  have hsuffix {last : Bytes} (suffix : Bytes) {rest' : Bytes}
      (hlast : last = directory ++ 47 :: 114 :: rest') :
      directory ++ 47 :: 112 :: rest ++ end_ ≠ last ++ suffix := by
    rw [hlast, append_assoc _ _ suffix]
    exact hother (rest' ++ suffix)
  have hprogram : lastProgramPath directory = directory ++ 47 :: 114 :: ofAscii "untime_last.nvm" :=
    rfl
  have hrun : lastRunPath directory = directory ++ 47 :: 114 :: ofAscii "untime_last.run" := rfl
  simp only [runtimeFiles, mem_cons, not_mem_nil, or_false, not_or]
  exact ⟨hother _, hsuffix _ hprogram, hsuffix _ hprogram, hother _, hsuffix _ hrun, hsuffix _ hrun⟩

theorem path_not_mem (hpath : pathFor directory arguments = some path) :
    path ∉ runtimeFiles directory := by
  simpa using path_append_not_mem hpath []

/-! ## What is loaded -/

/-- A program that a VM can hold. -/
def IsProgram (bytes : Bytes) : Prop := 1 ≤ bytes.length ∧ bytes.length ≤ 1024

/-- A file can be loaded if it is a program, and no other program is running. -/
theorem loadFile_iff (vm : NoobVm) (path bytes program : Bytes) :
    ((loadFile vm path bytes).1.ok = true ∧ (loadFile vm path bytes).2.loaded = program) ↔
      vm.busy = false ∧ bytes = program ∧ IsProgram program := by
  rw [loadFile]
  split
  · rename_i hsize
    rw [NoobVm.programBytes] at hsize
    refine ⟨fun h ↦ by simp at h, ?_⟩
    rintro ⟨_, rfl, hpos, hle⟩
    omega
  rename_i hsize
  cases hbusy : vm.busy with
  | true =>
    rw [NoobVm.load, if_neg hsize, if_pos hbusy]
    exact ⟨fun h ↦ by simp at h, fun h ↦ by simp at h⟩
  | false =>
    rw [NoobVm.programBytes] at hsize
    obtain ⟨vm', hload⟩ := NoobVm.load_ok vm hbusy (p := bytes) (by omega) (by omega)
    rw [hload, (NoobVm.load_spec hload).1]
    exact ⟨fun h ↦ ⟨rfl, h.2, h.2 ▸ ⟨by omega, by omega⟩⟩, fun h ↦ ⟨rfl, h.2.1⟩⟩

/-- `load` loads what is under the path, and otherwise what is under the old one. -/
theorem loads_iff (hpath : pathFor directory arguments = some path)
    (hlegacy : legacyPathFor directory arguments = some legacy) (vm : NoobVm) (d : Card)
    (program : Bytes) : Loads directory vm arguments d program ↔
      vm.busy = false ∧ (d path).or (d legacy) = some program ∧ IsProgram program := by
  have hload : load directory vm arguments d =
      match d path with
      | some bytes => loadFile vm path bytes
      | none =>
        match d legacy with
        | some bytes => loadFile vm legacy bytes
        | none => (.fail "saved program not found", vm) := by
    rw [load, hpath, hlegacy]
    rfl
  rw [Loads, hload]
  cases d path with
  | some bytes =>
    dsimp only
    rw [loadFile_iff, Option.some_or, Option.some_inj]
  | none =>
    rw [Option.none_or]
    cases d legacy with
    | some bytes =>
      dsimp only
      rw [loadFile_iff, Option.some_inj]
    | none => exact ⟨fun h ↦ (nomatch h.1), fun h ↦ (nomatch h.2.1)⟩

theorem Loads.paths {vm : NoobVm} {d : Card} {program : Bytes}
    (h : Loads directory vm arguments d program) :
    ∃ path legacy, pathFor directory arguments = some path ∧
      legacyPathFor directory arguments = some legacy := by
  cases hvalid : validName (Bytes.trim arguments) with
  | true =>
    rw [pathFor, legacyPathFor, hvalid]
    exact ⟨_, _, rfl, rfl⟩
  | false =>
    have hpath : pathFor directory arguments = none := by
      rw [pathFor, hvalid]
      rfl
    rw [Loads, load, hpath] at h
    exact nomatch h.1

/-- What is found after the next boot, if nothing has been changed but the files of the path. -/
theorem reboot_or (hpath : pathFor directory arguments = some path)
    (hlegacy : legacyPathFor directory arguments = some legacy) {d d' : Card}
    (hsame : SameBut path d d') :
    (reboot directory d' path).or (reboot directory d' legacy) =
      (d' path).or (fallback directory arguments d) := by
  have hfallback : fallback directory arguments d = if path = legacy then none
      else if legacy = lastProgramPath directory then recovered d legacy else d legacy := by
    rw [fallback, hlegacy, hpath, Option.bind_some]
    simp only [Option.some_inj]
  rw [(reboot_spec d').2 path (path_not_mem hpath), hfallback]
  split
  · rename_i heq
    rw [← heq, (reboot_spec d').2 path (path_not_mem hpath), Option.or_self, Option.or_none]
  rename_i hne
  congr 1
  split
  · rename_i hlast
    have hbackup : d' (backup legacy) = d (backup legacy) := by
      refine hsame _ (fun heq ↦ path_not_mem hpath ?_) (backup_ne_temporary _ _) ?_
      · rw [← heq, hlast, runtimeFiles]
        simp only [mem_cons, true_or, or_true]
      · exact fun heq ↦ hne (append_cancel_right heq).symm
    rw [hlast, (reboot_spec d').1, ← hlast, recovered, recovered, hbackup]
    rw [hsame legacy (Ne.symm hne) (legacy_ne hlegacy _).1 (legacy_ne hlegacy _).2]
  · rename_i hlast
    rw [(reboot_spec d').2 legacy (legacy_not_mem hlegacy hlast)]
    exact hsame legacy (Ne.symm hne) (legacy_ne hlegacy _).1 (legacy_ne hlegacy _).2

/-! ## What `save` leaves behind -/

/-- A file is created, unless that fails, and written as far as it gets. -/
theorem wp_overwrite {α : Type} {R : Card → Prop} {base d : Card} {main tmp bak : Option Bytes}
    {data : Bytes} {created written : Outcome} {refuse : Proc Card α} {k : Nat → Proc Card α}
    (h : Shows base path main tmp bak d)
    (hrefuse : created ≠ .done → Proc.Wp refuse (fun _ ↦ R) R d)
    (hk : ∀ n d', R d' → Proc.Wp (k n) (fun _ ↦ R) R d') (hunopened : created ≠ .done → R d)
    (hopened : created = .done → ∀ d',
      Shows base path (some (data.take (written.written data.length))) tmp bak d' → R d') :
    Proc.Wp (create created path >>= fun file ↦ if file = false then refuse else
      write written path data >>= k) (fun _ ↦ R) R d := by
  refine wp_op_bind (fun ho ↦ ?_) (fun n ho ↦ hrefuse (by simp [ho])) fun n ho ↦
    hunopened (by simp [ho])
  have hpart (n : Nat) : Shows base path (some (data.take n)) tmp bak
      (Files.write path (data.take n) (Files.create path d).2).2 := by
    rw [Files.write, show (Files.create path d).2 path = some [] from (h.setMain (some [])).main]
    exact (h.setMain (some [])).setMain (some (data.take n))
  have hleft := hopened ho _ (hpart _)
  refine Proc.wp_ite (fun hfalse ↦ by cases hfalse) fun _ ↦ ?_
  exact wp_write_bind (fun _ ↦ hk _ _ hleft) fun _ ↦ hleft

/-- What `save` leaves: the file that was there if the power fails before it is removed, and
otherwise as much of the program as was written. -/
structure SaveLeft (faults : Faults) (path program : Bytes) (d d' : Card) : Prop where
  rest : SameBut path d d'
  early : (d path).isSome = true → (faults .removeOld).stops → d' path = d path
  unopened : ¬ ((d path).isSome = true ∧ (faults .removeOld).stops) → faults .create ≠ .done →
    d' path = if faults .removeOld = .done then none else d path
  opened : ¬ ((d path).isSome = true ∧ (faults .removeOld).stops) → faults .create = .done →
    d' path = some (program.take ((faults .write).written program.length))

/-- What `save` leaves. -/
theorem save_left (hpath : pathFor directory arguments = some path) (faults : Faults) {vm : NoobVm}
    (hlength : vm.programLength ≠ 0) (d : Card) :
    SaveLeft faults path vm.loaded d ((save directory faults vm arguments).final d) := by
  refine Proc.Wp.final (R := SaveLeft faults path vm.loaded d) ?_
  rw [save, hpath]
  dsimp only
  rw [if_neg hlength]
  have h := Shows.self d path
  refine Proc.wp_bind (Proc.wp_read ?_)
  have hrest {main : Option Bytes} {d₁ : Card}
      (h₁ : Shows d path main (d (temporary path)) (d (backup path)) d₁)
      (hgoes : ¬ ((d path).isSome = true ∧ (faults .removeOld).stops))
      (hmain : main = if faults .removeOld = .done then none else d path) :
      Proc.Wp (create (faults .create) path >>= fun file ↦
          if file = false then pure (NativeResult.fail "cannot create program") else
          write (faults .write) path vm.loaded >>= fun written ↦
          if written ≠ vm.programLength then pure ⟨false, written, "program write failed", .empty⟩
          else pure ⟨true, vm.programLength, "saved=" ++ path.render, .empty⟩)
        (fun _ ↦ SaveLeft faults path vm.loaded d) (SaveLeft faults path vm.loaded d) d₁ := by
    have hleft (hcreate : faults .create ≠ .done) : SaveLeft faults path vm.loaded d d₁ :=
      ⟨h₁.rest, fun hsome hstop ↦ absurd ⟨hsome, hstop⟩ hgoes, fun _ _ ↦ h₁.main.trans hmain,
        fun _ hdone ↦ absurd hdone hcreate⟩
    refine wp_overwrite h₁ hleft (fun n d₂ h₂ ↦ ?_) hleft fun hcreate d₂ h₂ ↦ ?_
    · exact Proc.wp_ite (fun _ ↦ h₂) fun _ ↦ h₂
    · exact ⟨h₂.rest, fun hsome hstop ↦ absurd ⟨hsome, hstop⟩ hgoes,
        fun _ hne ↦ absurd hcreate hne, fun _ _ ↦ h₂.main⟩
  refine Proc.wp_ite (fun hsome ↦ ?_) fun hnone ↦ ?_
  · refine wp_op_bind (fun ho ↦ ?_) (fun n ho ↦ ?_) fun n ho ↦ ?_
    · refine hrest (h.setMain none) ?_ (by rw [if_pos ho])
      rw [ho]
      exact fun hearly ↦ hearly.2
    · refine hrest h ?_ (by simp [ho])
      rw [ho]
      exact fun hearly ↦ hearly.2
    have hstop : (faults .removeOld).stops := by
      rw [ho]
      trivial
    exact ⟨h.rest, fun _ _ ↦ rfl, fun hgoes ↦ absurd ⟨hsome, hstop⟩ hgoes,
      fun hgoes ↦ absurd ⟨hsome, hstop⟩ hgoes⟩
  · refine Proc.wp_bind (Proc.wp_pure (hrest h (fun hearly ↦ hnone hearly.1) ?_))
    rw [Option.not_isSome_iff_eq_none.mp hnone, ite_self]

/-! ## Replacing a program -/

variable (directory)

/-- A new program is put in the place of a saved one. -/
inductive Replacement
  /-- `VM_SAVE` with a program in the VM. -/
  | save (vm : NoobVm) (hlength : vm.programLength ≠ 0 ∧ vm.programLength ≤ 1024)
  /-- `storeBytes` with `replace`, as in `VM_DOWNLOAD`. -/
  | storeBytes (bytes : Bytes) (hbytes : IsProgram bytes)

namespace Replacement

/-- The new program. -/
def program : Replacement → Bytes
  | save vm _ => vm.loaded
  | storeBytes bytes _ => bytes

/-- What is done. -/
def perform (faults : Faults) (arguments : Bytes) : Replacement → Proc Card NativeResult
  | save vm _ => ProgramStore.save directory faults vm arguments
  | storeBytes bytes _ => ProgramStore.storeBytes directory faults arguments bytes true

theorem isProgram_program (new : Replacement) : IsProgram new.program := by
  cases new with
  | save vm hlength =>
    rw [IsProgram, program, NoobVm.loaded, length_take, Vector.length_toList]
    omega
  | storeBytes bytes hbytes => exact hbytes

/-- The old program or the new one survives in the file of an earlier version. -/
def Kept (arguments : Bytes) (d : Card) (previous : Bytes) (new : Replacement) : Prop :=
  fallback directory arguments d = some previous ∨
    fallback directory arguments d = some new.program

/-- The operations that fail do no harm.  For `save`, a file that is opened is written to its end,
unless what is written is the old program, and a file that has been removed is opened again.  For
`storeBytes`, the file is not moved away for good. -/
def Harmless (faults : Faults) (path : Bytes) (arguments : Bytes) (d : Card) (previous : Bytes)
    (new : Replacement) : Prop :=
  match new with
  | save vm _ =>
    (¬ ((d path).isSome = true ∧ (faults .removeOld).stops) → faults .create = .done →
      vm.loaded.take ((faults .write).written vm.loaded.length) = previous ∨
        (faults .write).written vm.loaded.length = vm.loaded.length) ∧
    ((d path).isSome = true → faults .removeOld = .done → faults .create ≠ .done →
      new.Kept directory arguments d previous)
  | storeBytes bytes _ =>
    (d path).isSome = true → Faulty.Stranded faults path bytes d →
      new.Kept directory arguments d previous

end Replacement

variable {directory}

/-- `storeBytes` changes the card as `atomicWrite` does. -/
theorem storeBytes_final (hpath : pathFor directory arguments = some path) (faults : Faults)
    {bytes : Bytes} (hbytes : IsProgram bytes) (d : Card) :
    (storeBytes directory faults arguments bytes true).final d =
      (Faulty.atomicWrite faults path bytes).final d := by
  have hsize : ¬ (bytes.length = 0 ∨ NoobVm.programBytes < bytes.length) := by
    have hle := hbytes.2
    have hpos := hbytes.1
    rw [NoobVm.programBytes]
    omega
  refine Proc.Wp.final (R := fun d' ↦ d' = (Faulty.atomicWrite faults path bytes).final d) ?_
  rw [storeBytes, if_neg hsize, hpath]
  refine Proc.wp_bind (Proc.wp_read (Proc.wp_ite (fun hfalse ↦ by cases hfalse) fun _ ↦ ?_))
  refine Proc.wp_bind ((Proc.wp_final (Faulty.atomicWrite faults path bytes) d).mono
    (fun r d' hd' ↦ ?_) fun _ hd' ↦ hd')
  cases r with
  | error error | ok _ => exact hd'

section

variable {vm : NoobVm} {d d' : Card} {previous : Bytes}
  (hpath : pathFor directory arguments = some path)
  (hsaved : Loads directory vm arguments d previous)

include hpath hsaved

/-- As long as nothing happens to its file, a saved program is found at the next boot. -/
theorem Loads.or_fallback : (d path).or (fallback directory arguments d) = some previous := by
  obtain ⟨_, legacy, _, hlegacy⟩ := hsaved.paths
  have hfound := ((loads_iff hpath hlegacy vm d previous).mp hsaved).2.1
  cases hmain : d path with
  | some bytes =>
    rw [hmain] at hfound
    exact hfound
  | none =>
    rw [hmain, Option.none_or] at hfound
    have hne : ¬ some path = some legacy := by
      intro heq
      rw [← Option.some.inj heq, hmain] at hfound
      cases hfound
    rw [Option.none_or, fallback, hlegacy, Option.bind_some, hpath, if_neg hne, recovered, hfound,
      Option.some_or, ite_self]

/-- What `save` leaves is the old program or the new one, if the operations do no harm. -/
theorem SaveLeft.or_iff {vm' : NoobVm} {faults : Faults}
    (hlength : vm'.programLength ≠ 0 ∧ vm'.programLength ≤ 1024)
    (h : SaveLeft faults path vm'.loaded d d') :
    ((d' path).or (fallback directory arguments d) = some previous ∨
      (d' path).or (fallback directory arguments d) = some vm'.loaded) ↔
      (Replacement.save vm' hlength).Harmless directory faults path arguments d previous := by
  have hold := hsaved.or_fallback hpath
  rw [Replacement.Harmless]
  by_cases hearly : (d path).isSome = true ∧ (faults .removeOld).stops
  · rw [h.early hearly.1 hearly.2]
    refine ⟨fun _ ↦ ⟨fun hgoes ↦ absurd hearly hgoes, fun _ hdone ↦ ?_⟩, fun _ ↦ .inl hold⟩
    rw [hdone] at hearly
    exact hearly.2.elim
  by_cases hcreate : faults .create = .done
  · rw [h.opened hearly hcreate, Option.some_or, Option.some_inj, Option.some_inj,
      take_eq_self_iff]
    have hle := (faults .write).written_le vm'.loaded.length
    refine ⟨fun hw ↦ ⟨fun _ _ ↦ hw.imp id fun h ↦ by omega, fun _ _ hne ↦ absurd hcreate hne⟩,
      fun hw ↦ (hw.1 hearly hcreate).imp id fun h ↦ by omega⟩
  rw [h.unopened hearly hcreate]
  by_cases hremove : faults .removeOld = .done
  · rw [if_pos hremove, Option.none_or]
    cases hmain : d path with
    | some bytes =>
      exact ⟨fun hkept ↦ ⟨fun _ hdone ↦ absurd hdone hcreate, fun _ _ _ ↦ hkept⟩,
        fun hharmless ↦ hharmless.2 rfl hremove hcreate⟩
    | none =>
      rw [hmain, Option.none_or] at hold
      exact ⟨fun _ ↦ ⟨fun _ hdone ↦ absurd hdone hcreate, fun hsome ↦ nomatch hsome⟩,
        fun _ ↦ .inl hold⟩
  · rw [if_neg hremove]
    exact ⟨fun _ ↦ ⟨fun _ hdone ↦ absurd hdone hcreate, fun _ hdone ↦ absurd hdone hremove⟩,
      fun _ ↦ .inl hold⟩

/-- What `atomicWrite` leaves is the old program or the new one, if the operations do no harm. -/
theorem atomicWrite_or_iff (faults : Faults) {bytes : Bytes} (hbytes : IsProgram bytes)
    (hd' : d' = (Faulty.atomicWrite faults path bytes).final d) :
    ((d' path).or (fallback directory arguments d) = some previous ∨
      (d' path).or (fallback directory arguments d) = some bytes) ↔
      (Replacement.storeBytes bytes hbytes).Harmless directory faults path arguments d
      previous := by
  have hold := hsaved.or_fallback hpath
  rw [Replacement.Harmless]
  cases hmain : d path with
  | some main =>
    rw [hmain, Option.some_or] at hold
    have hleft := Faulty.atomicWrite_replaces faults bytes hmain
    rw [← hd', Option.some.inj hold] at hleft
    by_cases hstranded : Faulty.Stranded faults path bytes d
    · rw [hleft.lost hstranded, Option.none_or]
      exact ⟨fun hkept _ _ ↦ hkept, fun hharmless ↦ hharmless rfl hstranded⟩
    refine ⟨fun _ _ hs ↦ absurd hs hstranded, fun _ ↦ ?_⟩
    rcases hleft.kept hstranded with heq | heq
    · exact .inl (by rw [heq, Option.some_or])
    · exact .inr (by rw [heq, Option.some_or])
  | none =>
    rw [hmain, Option.none_or] at hold
    refine ⟨fun _ hsome ↦ (nomatch hsome), fun _ ↦ ?_⟩
    have hleft := (Faulty.atomicWrite_creates faults bytes hmain).2
    rw [← hd'] at hleft
    rcases hleft with heq | heq
    · exact .inl (by rw [heq, Option.none_or, hold])
    · exact .inr (by rw [heq, Option.some_or])

theorem perform_or_iff (faults : Faults) (new : Replacement)
    (hd' : d' = (new.perform directory faults arguments).final d) :
    SameBut path d d' ∧
      (((d' path).or (fallback directory arguments d) = some previous ∨
        (d' path).or (fallback directory arguments d) = some new.program) ↔
        new.Harmless directory faults path arguments d previous) := by
  cases new with
  | save vm' hlength =>
    have hleft := save_left hpath faults hlength.1 d
    rw [Replacement.perform] at hd'
    rw [← hd'] at hleft
    exact ⟨hleft.rest, hleft.or_iff hpath hsaved hlength⟩
  | storeBytes bytes hbytes =>
    rw [Replacement.perform, storeBytes_final hpath faults hbytes] at hd'
    refine ⟨?_, atomicWrite_or_iff hpath hsaved faults hbytes hd'⟩
    rw [hd']
    cases hmain : d path with
    | some main => exact (Faulty.atomicWrite_replaces faults bytes hmain).rest
    | none => exact (Faulty.atomicWrite_creates faults bytes hmain).1

end

/-- A card with one saved program. -/
def cardOf (path program : Bytes) : Card := fun file ↦ if file = path then some program else none

/-- One operation goes wrong. -/
def faultAt (site : Site) (o : Outcome) : Faults := fun site' ↦ if site' = site then o else .done

/-- **A saved program that is replaced survives, or the new one takes its place, just if the
operations that fail do no harm.** -/
theorem replaced_program_iff {directory arguments path : Bytes} {vm : NoobVm} {d : Card}
    {previous : Bytes} (hpath : pathFor directory arguments = some path)
    (hsaved : Loads directory vm arguments d previous) (new : Replacement) (faults : Faults)
    (vm' : NoobVm) :
    (Loads directory vm' arguments
        (reboot directory ((new.perform directory faults arguments).final d)) previous ∨
      Loads directory vm' arguments
        (reboot directory ((new.perform directory faults arguments).final d)) new.program) ↔
      vm'.busy = false ∧ new.Harmless directory faults path arguments d previous := by
  obtain ⟨_, legacy, _, hlegacy⟩ := hsaved.paths
  have hprevious := ((loads_iff hpath hlegacy vm d previous).mp hsaved).2.2
  obtain ⟨hsame, hiff⟩ := perform_or_iff hpath hsaved faults new rfl
  rw [loads_iff hpath hlegacy, loads_iff hpath hlegacy, reboot_or hpath hlegacy hsame, ← hiff]
  have hnew := new.isProgram_program
  constructor
  · rintro (⟨hvm, hfound, _⟩ | ⟨hvm, hfound, _⟩)
    · exact ⟨hvm, .inl hfound⟩
    · exact ⟨hvm, .inr hfound⟩
  · rintro ⟨hvm, hfound | hfound⟩
    · exact .inl ⟨hvm, hfound, hprevious⟩
    · exact .inr ⟨hvm, hfound, hnew⟩

/-- The old file cannot be removed, but the new program is written over it. -/
theorem replaced_program_unremoved :
    let directory := ofAscii "/noob"
    let name := ofAscii "a"
    let d := cardOf (ofAscii "/noob/prog_a.nvm") [1]
    let new : Replacement := .save { programLength := 2 } (by decide)
    let faults := faultAt .removeOld (.failed 0)
    pathFor directory name = some (ofAscii "/noob/prog_a.nvm") ∧ Loads directory {} name d [1] ∧
      (Loads directory {} name (reboot directory ((new.perform directory faults name).final d))
      [1] ∨
        Loads directory {} name (reboot directory ((new.perform directory faults name).final d))
          new.program) := by
  have hpath : pathFor (ofAscii "/noob") (ofAscii "a") = some (ofAscii "/noob/prog_a.nvm") := by
    decide +kernel
  have hsaved : Loads (ofAscii "/noob") {} (ofAscii "a")
      (cardOf (ofAscii "/noob/prog_a.nvm") [1]) [1] := by
    decide +kernel
  refine ⟨hpath, hsaved, (replaced_program_iff hpath hsaved _ _ _).mpr ⟨rfl, ?_⟩⟩
  exact ⟨fun _ _ ↦ .inr rfl, fun _ hdone ↦ nomatch hdone⟩

/-- `VM_SAVE` replaces a program of one byte by one of two.  If the power fails when the new file is
opened, no program is found any more; if it fails in the middle of the write, half of the new one is
loaded.  If it fails in `VM_DOWNLOAD` between the two renames, no program is found either. -/
theorem saved_program_lost :
    let directory := ofAscii "/noob"
    let name := ofAscii "a"
    let d := cardOf (ofAscii "/noob/prog_a.nvm") [1]
    let vm : NoobVm := { programLength := 2 }
    let after (m : Proc Card NativeResult) : NativeResult × NoobVm :=
      load directory {} name (reboot directory (m.final d))
    Loads directory {} name d [1] ∧ vm.loaded = [0, 0] ∧
      (after (save directory (faultAt .create (.cut 0)) vm name)).1.detail =
        "saved program not found" ∧
      (after (save directory (faultAt .write (.cut 1)) vm name)).2.loaded = [0] ∧
      (after (storeBytes directory (faultAt .install (.cut 0)) name [2, 0] true)).1.detail =
        "saved program not found" := by
  decide +kernel

end ProgramStore

end Noobia
