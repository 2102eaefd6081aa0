import Noobia.Store.Saved

/-!
# Deleting a program

`VM_DELETE_SAVED` removes the file of a program.  If it cannot, it removes the file in which an
earlier version of the store would have kept the program.  That one has no `prog_` before its name,
and so the snapshot is such a file: `VM_DELETE_SAVED runtime_last` deletes it.

`snapshot_kept_iff` says that this is the only way in which the store, asked for anything, changes a
file of the snapshot.
-/

namespace Noobia.ProgramStore

open List Bytes Fault

variable (directory : Bytes)

/-- `remove`.  The card may refuse to remove a file, the first or the second that is tried. -/
def delete (first second : Bool) (arguments : Bytes) (d : Card) : NativeResult × Card :=
  match pathFor directory arguments with
  | none => (.fail "invalid program name", d)
  | some path =>
    if first && (d path).isSome then
      (⟨true, 1, "deleted=" ++ path.render, .empty⟩, (Files.remove path d).2)
    else
      let legacy := (legacyPathFor directory arguments).getD []
      if second && (d legacy).isSome then
        (⟨true, 1, "deleted=" ++ legacy.render, .empty⟩, (Files.remove legacy d).2)
      else (.fail "saved program not found", d)

/-- The name is the snapshot's, and there is a snapshot but no program of that name, or none that
could be removed. -/
def DeletesSnapshot (first second : Bool) (arguments : Bytes) (d : Card) : Prop :=
  trim arguments = ofAscii "runtime_last" ∧
    (first && (d (directory ++ ofAscii "/prog_runtime_last.nvm")).isSome) = false ∧
    (second && (d (lastProgramPath directory)).isSome) = true
  deriving Decidable

/-- What the store is asked for. -/
inductive Request where
  /-- `VM_SAVE`. -/
  | save (faults : Faults) (vm : NoobVm)
  | storeBytes (faults : Faults) (bytes : Bytes) (replace : Bool)
  /-- `VM_LOAD_SAVED`. -/
  | load (vm : NoobVm)
  /-- `VM_DELETE_SAVED`. -/
  | delete (first second : Bool)

/-- The card after a request.  `load` only reads. -/
def Request.perform (arguments : Bytes) : Request → Card → Card
  | .save faults vm, d => (ProgramStore.save directory faults vm arguments).final d
  | .storeBytes faults bytes replace, d =>
    (ProgramStore.storeBytes directory faults arguments bytes replace).final d
  | .load _, d => d
  | .delete first second, d => (ProgramStore.delete directory first second arguments d).2

variable {directory} {arguments path legacy file : Bytes} {faults : Faults}

theorem atomicWrite_rest (faults : Faults) (path data : Bytes) (d : Card) :
    SameBut path d ((Faulty.atomicWrite faults path data).final d) := by
  cases hd : d path with
  | none => exact (Faulty.atomicWrite_creates faults data hd).1
  | some previous => exact (Faulty.atomicWrite_replaces faults data hd).rest

theorem runtime_of_sameBut {d d' : Card} (h : SameBut path d d')
    (hpath : pathFor directory arguments = some path) (hfile : file ∈ runtimeFiles directory) :
    d' file = d file :=
  h file (fun h ↦ path_not_mem hpath (h ▸ hfile))
    (fun h ↦ path_append_not_mem hpath _ (h ▸ hfile))
    fun h ↦ path_append_not_mem hpath _ (h ▸ hfile)

section

variable (hfile : file ∈ runtimeFiles directory) (d : Card)

include hfile

theorem save_runtime (vm : NoobVm) :
    (save directory faults vm arguments).final d file = d file := by
  cases hpath : pathFor directory arguments with
  | none =>
    rw [save, hpath]
    rfl
  | some path =>
    by_cases hlength : vm.programLength = 0
    · rw [save, hpath]
      dsimp only
      rw [if_pos hlength]
      rfl
    · exact runtime_of_sameBut (save_left hpath faults hlength d).rest hpath hfile

theorem storeBytes_runtime (bytes : Bytes) (replace : Bool) :
    (storeBytes directory faults arguments bytes replace).final d file = d file := by
  refine Proc.Wp.final (R := fun d' : Card ↦ d' file = d file) ?_
  refine Proc.wp_ite (fun _ ↦ rfl) fun _ ↦ ?_
  cases hpath : pathFor directory arguments with
  | none => exact rfl
  | some path =>
    refine Proc.wp_bind (Proc.wp_read (Proc.wp_ite (fun _ ↦ rfl) fun _ ↦ ?_))
    have hrest := runtime_of_sameBut (atomicWrite_rest faults path bytes d) hpath hfile
    refine Proc.wp_bind ((Proc.wp_final (Faulty.atomicWrite faults path bytes) d).mono
      (fun r d' hd' ↦ ?_) fun d' hd' ↦ hd' ▸ hrest)
    cases r <;> exact hd' ▸ hrest

end

theorem trim_eq_iff (hlegacy : legacyPathFor directory arguments = some legacy) :
    trim arguments = ofAscii "runtime_last" ↔ legacy = lastProgramPath directory := by
  rw [legacyPathFor] at hlegacy
  split at hlegacy
  · obtain rfl := Option.some.inj hlegacy
    have hlast : lastProgramPath directory =
        directory ++ ofAscii "/" ++ ofAscii "runtime_last" ++ ofAscii ".nvm" := by
      simp [lastProgramPath, ofAscii]
    rw [hlast, append_left_inj, append_right_inj]
  · cases hlegacy

theorem delete_kept_iff (first second : Bool) (d : Card) :
    (∀ file ∈ runtimeFiles directory, (delete directory first second arguments d).2 file = d file) ↔
      ¬ DeletesSnapshot directory first second arguments d := by
  rw [delete]
  by_cases hvalid : validName (trim arguments) = true
  swap
  · rw [show pathFor directory arguments = none by simp [pathFor, hvalid]]
    refine iff_of_true (fun _ _ ↦ rfl) fun h ↦ hvalid ?_
    rw [h.1]
    decide
  obtain ⟨path, hpath⟩ : ∃ path, pathFor directory arguments = some path := by
    simp [pathFor, hvalid]
  obtain ⟨legacy, hlegacy⟩ : ∃ legacy, legacyPathFor directory arguments = some legacy := by
    simp [legacyPathFor, hvalid]
  have hname : trim arguments = ofAscii "runtime_last" →
      path = directory ++ ofAscii "/prog_runtime_last.nvm" ∧
        legacy = lastProgramPath directory := by
    refine fun hname ↦ ⟨?_, (trim_eq_iff hlegacy).mp hname⟩
    rw [pathFor, hname, if_pos (by decide), if_neg (by decide)] at hpath
    rw [← Option.some.inj hpath]
    simp [ofAscii]
  rw [hpath, hlegacy]
  dsimp only [Option.getD_some]
  split
  · rename_i hremoved
    refine iff_of_true (fun file hfile ↦ Function.update_of_ne ?_ ..) ?_
    · exact fun h ↦ path_not_mem hpath (h ▸ hfile)
    · rintro ⟨h, hkept, -⟩
      rw [← (hname h).1, hremoved] at hkept
      cases hkept
  · rename_i hkept
    split
    · rename_i hremoved
      by_cases hlast : legacy = lastProgramPath directory
      · have htrim := (trim_eq_iff hlegacy).mpr hlast
        rw [hlast] at hremoved ⊢
        refine iff_of_false (fun h ↦ ?_) (not_not_intro ⟨htrim, ?_, hremoved⟩)
        · have hnone := h _ mem_cons_self
          simp only [Files.remove, Function.update_self] at hnone
          simp [← hnone] at hremoved
        · rw [← (hname htrim).1]
          exact Bool.eq_false_of_not_eq_true hkept
      · refine iff_of_true (fun file hfile ↦ Function.update_of_ne ?_ ..)
          fun h ↦ hlast (hname h.1).2
        exact fun h ↦ legacy_not_mem hlegacy hlast (h ▸ hfile)
    · rename_i hkept'
      refine iff_of_true (fun _ _ ↦ rfl) fun h ↦ hkept' ?_
      rw [(hname h.1).2]
      exact h.2.2

/-- **The store changes no file of the snapshot**, whatever it is asked for and whatever becomes of
its operations, except that it deletes the snapshot as a program of that name. -/
theorem snapshot_kept_iff (directory arguments : Bytes) (request : Request) (d : Card) :
    (∀ file ∈ runtimeFiles directory, request.perform directory arguments d file = d file) ↔
      ∀ first second, request = .delete first second →
        ¬ DeletesSnapshot directory first second arguments d := by
  cases request with
  | save faults vm => exact iff_of_true (fun _ hfile ↦ save_runtime hfile d vm) nofun
  | storeBytes faults bytes replace =>
    exact iff_of_true (fun _ hfile ↦ storeBytes_runtime hfile d bytes replace) nofun
  | load vm => exact iff_of_true (fun _ _ ↦ rfl) nofun
  | delete first second =>
    refine (delete_kept_iff first second d).trans ⟨?_, fun h ↦ h _ _ rfl⟩
    rintro h _ _ ⟨⟩
    exact h

/-- There is a snapshot, and nothing else. -/
theorem snapshot_deleted :
    (Request.delete true true).perform [] (ofAscii "runtime_last") (cardOf (lastProgramPath []) [0])
      (lastProgramPath []) ≠ cardOf (lastProgramPath []) [0] (lastProgramPath []) := by
  decide +kernel

end Noobia.ProgramStore
